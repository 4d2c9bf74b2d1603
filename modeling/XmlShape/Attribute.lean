import XmlShape.Element
import XmlShape.ValueSet

/-! # Attribute summaries

What is known of one attribute over all instances of an element: the values it took and how many
instances carried it. -/

namespace XmlShape

structure AttributeSummary where
  name : String
  values : ValueSet
  count : Int
deriving DecidableEq

namespace AttributeSummary

def combine (a b : AttributeSummary) : AttributeSummary :=
  ⟨a.name, a.values.union b.values, a.count + b.count⟩

/-- Every one of several elements carries a value of its own. -/
def isUnique (a : AttributeSummary) (elements : Int) : Bool :=
  elements > 1 && (a.values.size : Int) == elements

/-- From two to ten values. -/
def isEnumeration (a : AttributeSummary) : Bool :=
  2 ≤ a.values.size && a.values.size ≤ 10

/-- The name with what the values show, such as `sku(unique)` or `currency(enum:EUR|USD)`. -/
def annotated (a : AttributeSummary) (elements : Int) : String :=
  if a.isUnique elements then a.name ++ "(unique)"
  else if a.isEnumeration then a.name ++ "(enum:" ++ "|".intercalate a.values.toList ++ ")"
  else a.name

def isRequired (a : AttributeSummary) (elements : Int) : Bool :=
  elements ≤ a.count

def use (a : AttributeSummary) (elements : Int) : String :=
  if a.isRequired elements then "required" else "optional"

/-- Adds one value to the attribute of that name, which comes last if it is new. -/
def addValue (name value : String) : List AttributeSummary → List AttributeSummary
  | [] => [⟨name, ValueSet.empty.insert value, 1⟩]
  | a :: as =>
    if a.name = name then ⟨a.name, a.values.insert value, a.count + 1⟩ :: as
    else a :: addValue name value as

/-- Records that one instance carries the attribute; namespace declarations leave no trace. -/
def record (as : List AttributeSummary) (name value : String) : List AttributeSummary :=
  if isNamespaceDeclaration name then as else addValue name value as

def find? (as : List AttributeSummary) (name : String) : Option AttributeSummary :=
  List.find? (fun a => a.name == name) as

def contains (as : List AttributeSummary) (name : String) : Bool :=
  as.any fun a => a.name == name

/-- The attributes of both lists: those of the first, each with what the second knows of it, then the
new ones of the second. -/
def combineAll (as bs : List AttributeSummary) : List AttributeSummary :=
  (as.map fun a =>
      match find? bs a.name with
      | some b => a.combine b
      | none => a) ++
    bs.filter fun b => !contains as b.name

/-- The same attributes with the same values and counts, in any order. -/
def sameAll (as bs : List AttributeSummary) : Bool :=
  as.length == bs.length && as.all fun a => find? bs a.name == some a

end AttributeSummary

end XmlShape
