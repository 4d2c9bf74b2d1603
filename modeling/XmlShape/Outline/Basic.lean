import XmlShape.Summary.Basic

/-! # Outlines

A nested outline with occurrence ranges, annotated attributes and text types. A child without
children of its own takes one line. -/

namespace XmlShape.Outline

def annotations (s : Summary) : List String :=
  s.attributes.map (·.annotated s.instances)

/-- What is shown of one summary, each entry under its key. -/
def fields (s : Summary) : List (String × String) :=
  (if s.range.repeatable then [("occurs", s.range.label)] else []) ++
  (if s.range.optional then [("optional", "yes")] else []) ++
  (if s.hasAttributes then [("attrs", "[" ++ ", ".intercalate (annotations s) ++ "]")] else []) ++
  (if s.hasText && !s.hasChildren then [("text", s.type.name)] else [])

def entry (f : String × String) : String :=
  f.1 ++ ": " ++ f.2

def head (indent : String) (s : Summary) : List String :=
  (indent ++ s.name ++ ":") ::
    ((fields s).map (fun f => indent ++ "  " ++ entry f) ++
      (if s.hasText && s.hasChildren then [indent ++ "  mixed: " ++ s.type.name] else []) ++
      if s.hasChildren then
        [indent ++ "  children: [" ++ ", ".intercalate (s.children.map (·.name)) ++ "]"]
      else [])

def leaf (indent : String) (s : Summary) : String :=
  indent ++ s.name ++ ": \x7b" ++ ", ".intercalate ((fields s).map entry) ++ "\x7d"

mutual
def lines (indent : String) : Summary → List String
  | ⟨name, counts, mixed, texts, attributes, children⟩ =>
    head indent ⟨name, counts, mixed, texts, attributes, children⟩ ++
      childLines (indent ++ "  ") children

def childLines (indent : String) : List Summary → List String
  | [] => []
  | c :: cs =>
    (if c.hasChildren then lines indent c else [leaf indent c]) ++ childLines indent cs
end

def render (s : Summary) : String :=
  "\n".intercalate (lines "" s)

end XmlShape.Outline
