import XmlShape.Element
import XmlShape.Json
import XmlShape.Text.Column
import XmlShape.ValueSet

/-! # Attributes by path

The values of every attribute, under the path of element names that leads to it. -/

namespace XmlShape

structure AttributePath where
  /-- Element names and the attribute's name, as in `catalog/item/@sku`. -/
  path : String
  values : ValueSet
deriving DecidableEq

namespace AttributePath

def extend (parent name : String) : String :=
  if parent = "" then name else parent ++ "/" ++ name

mutual
/-- Each attribute of a tree with its path and value, in document order. -/
def sightings (parent : String) : Element → List (String × String)
  | ⟨name, attributes, children, _, _⟩ =>
    (properAttributes attributes).map (fun a => (extend parent name ++ "/@" ++ a.1, a.2)) ++
      sightingsAll (extend parent name) children

def sightingsAll (parent : String) : List Element → List (String × String)
  | [] => []
  | e :: es => sightings parent e ++ sightingsAll parent es
end

/-- Adds one value to its path, which comes last if it is new. -/
def add (path value : String) : List AttributePath → List AttributePath
  | [] => [⟨path, ValueSet.empty.insert value⟩]
  | p :: ps =>
    if p.path = path then ⟨p.path, p.values.insert value⟩ :: ps else p :: add path value ps

def ofDocuments (roots : List Element) : List AttributePath :=
  (sightingsAll "" roots).foldl (fun ps s => add s.1 s.2 ps) []

def longest (ps : List AttributePath) : Nat :=
  ps.foldl (fun w p => max w p.path.length) 0

/-- Up to this many values are listed without being asked for. -/
def listLimit : Nat := 10

/-- The path in a column of its own, the number of values and, if there are few, the values. -/
def line (width : Nat) (allValues : Bool) (p : AttributePath) : String :=
  let plural := if p.values.size = 1 then "" else "s"
  let listed :=
    if allValues || p.values.size ≤ listLimit then
      "  [" ++ ", ".intercalate p.values.toList ++ "]"
    else ""
  Text.alignLeft width p.path ++ "  " ++ toString p.values.size ++ " unique value" ++ plural ++ listed

def render (ps : List AttributePath) (allValues : Bool) : String :=
  "\n".intercalate (ps.map (line (longest ps) allValues))

def toJson (p : AttributePath) : Json :=
  .object
    [("path", .string p.path),
      ("uniqueCount", .integer p.values.size),
      ("values", .array (p.values.toList.map .string))]

end AttributePath

end XmlShape
