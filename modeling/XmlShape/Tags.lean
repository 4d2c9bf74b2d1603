import XmlShape.Element
import XmlShape.Json
import XmlShape.Text.Column
import XmlShape.Text.Lowercase
import XmlShape.Text.Quoted

/-! # Tag counts

How often each element name occurs, by number of occurrences or by name. -/

namespace XmlShape

structure TagCount where
  name : String
  count : Int
deriving DecidableEq

namespace TagCount

/-- Counts one more occurrence; a new name comes last. -/
def add (name : String) : List TagCount → List TagCount
  | [] => [⟨name, 1⟩]
  | t :: ts => if t.name = name then ⟨t.name, t.count + 1⟩ :: ts else t :: add name ts

def ofNames (names : List String) : List TagCount :=
  names.foldl (fun ts name => add name ts) []

/-- Whether elements of this level are counted; the root is on level one. -/
def within (limit : Option Int) (level : Int) : Bool :=
  match limit with
  | some depth => level ≤ depth
  | none => true

mutual
/-- The element names of a tree in document order, down to the last level counted. -/
def names (limit : Option Int) (level : Int) : Element → List String
  | ⟨name, _, children, _, _⟩ =>
    if within limit level then name :: namesAll limit (level + 1) children else []

def namesAll (limit : Option Int) (level : Int) : List Element → List String
  | [] => []
  | e :: es => names limit level e ++ namesAll limit level es
end

/-- The counts over all documents, in the order in which the names first occur. -/
def ofDocuments (roots : List Element) (limit : Option Int) : List TagCount :=
  ofNames (namesAll limit 1 roots)

inductive Order where
  | byCount
  | byName
deriving DecidableEq

inductive OrderError where
  | unknown (name : String)

def OrderError.message : OrderError → String
  | unknown name => "Unknown sort order: " ++ Text.quoted name

def Order.ofName? : String → Option Order
  | "count" => some byCount
  | "name" => some byName
  | _ => none

def Order.ofName (name : String) : Except OrderError Order :=
  match ofName? name with
  | some o => .ok o
  | none => .error (.unknown name)

/-- Alphabetical order without regard to case; names that differ in case alone go by their characters. -/
def nameLe (s t : TagCount) : Bool :=
  let u := Text.lower s.name
  let v := Text.lower t.name
  u < v || (u == v && s.name ≤ t.name)

/-- The more frequent first, then by name. -/
def countLe (s t : TagCount) : Bool :=
  t.count < s.count || (s.count == t.count && nameLe s t)

def sort (order : Order) (ts : List TagCount) : List TagCount :=
  match order with
  | .byCount => ts.mergeSort countLe
  | .byName => ts.mergeSort nameLe

/-- Sorts by the order of that name. -/
def sortBy (order : String) (ts : List TagCount) : Except OrderError (List TagCount) :=
  (Order.ofName order).map fun o => sort o ts

def greatest : List TagCount → Int
  | [] => 0
  | t :: ts => ts.foldl (fun m u => max m u.count) t.count

/-- One line for each tag: the count, aligned to the right, and the name. -/
def lines (ts : List TagCount) : List String :=
  let width := (toString (greatest ts)).length
  ts.map fun t => Text.alignRight width (toString t.count) ++ "  " ++ t.name

def render (ts : List TagCount) : String :=
  "\n".intercalate (lines ts)

def toJson (t : TagCount) : Json :=
  .object [("name", .string t.name), ("count", .integer t.count)]

end TagCount

end XmlShape
