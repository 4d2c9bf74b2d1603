import XmlShape.Summary.Basic

/-! # Box drawings

A summary as a tree of lines. Under each name stand its attributes in ascending order, a mark if the
content is mixed, and its children. -/

namespace XmlShape.Drawing

structure Options where
  /-- The last level drawn, the root being level one; a name on it is drawn alone. -/
  depth : Option Int
  attributes : Bool
  counts : Bool

def Options.all : Options :=
  ⟨none, true, true⟩

/-- Whether the drawing ends at the names of this level. -/
def Options.endsAt (o : Options) (level : Int) : Bool :=
  match o.depth with
  | some depth => depth ≤ level
  | none => false

def connector (last : Bool) : String :=
  if last then "└── " else "├── "

/-- What stands under a connector, before the lines of the item's own content. -/
def continuation (last : Bool) : String :=
  if last then "    " else "│   "

def label (o : Options) (s : Summary) : String :=
  let mark := if o.counts then s.range.mark else ""
  if mark = "" then s.name else s.name ++ "  " ++ mark

def marks (o : Options) (attributes : List AttributeSummary) (mixed : Bool) : List String :=
  (if o.attributes then
      (ValueSet.ofList (attributes.map (·.name))).toList.map fun name => "@" ++ name
    else []) ++
    if mixed then ["#text"] else []

/-- The lines of `marks`; `last` says whether the last of them ends its parent's content. -/
def markLines (indent : String) (last : Bool) : List String → List String
  | [] => []
  | m :: ms => (indent ++ connector (last && ms.isEmpty) ++ m) :: markLines indent last ms

mutual
/-- The lines below the name of a summary on level `level`. -/
def content (o : Options) (level : Int) (indent : String) : Summary → List String
  | ⟨_, _, mixed, _, attributes, children⟩ =>
    if o.endsAt level then []
    else
      markLines indent children.isEmpty (marks o attributes mixed) ++
        childLines o (level + 1) indent children

def childLines (o : Options) (level : Int) (indent : String) : List Summary → List String
  | [] => []
  | c :: cs =>
    (indent ++ connector cs.isEmpty ++ label o c) ::
      (content o level (indent ++ continuation cs.isEmpty) c ++ childLines o level indent cs)
end

def lines (o : Options) (s : Summary) : List String :=
  label o s :: content o 1 "" s

def render (o : Options) (s : Summary) : String :=
  "\n".intercalate (lines o s)

end XmlShape.Drawing
