import XmlShape.Xml.Reference

/-! # Entities

General entities stand for text. In an attribute's value they are replaced by it; in element content
they stay references. The text that a document makes of its entities is limited. -/

namespace XmlShape.Xml

inductive EntityValue where
  | text (replacement : List Char)
  /-- Text outside the document, which is not read. -/
  | external
  /-- Something other than text. -/
  | unparsed
deriving DecidableEq

structure Entities where
  /-- The first declaration of a name comes first and is the one that counts. -/
  declared : List (String × EntityValue)
  /-- Whether further entities may be declared in a part that is not read. -/
  incomplete : Bool

namespace Entities

def empty : Entities :=
  ⟨[], false⟩

def find? (es : Entities) (name : String) : Option EntityValue :=
  (es.declared.find? fun d => d.1 == name).map (·.2)

/-- White space in an attribute's value counts as a space. -/
def plain (c : Char) : Char :=
  if isSpace c then ' ' else c

/-- The value of an attribute with its references replaced, to at most `depth` levels. -/
def expand (es : Entities) : Nat → List Char → Except SyntaxError (List Char)
  | 0, _ => .error .excessiveExpansion
  | depth + 1, cs => do
    let symbols ← Symbol.read cs
    let parts ← symbols.mapM fun
      | .raw c => pure [plain c]
      | .numbered c => pure [c]
      | .entity name =>
        match Symbol.predefined? name with
        | some c => pure [c]
        | none =>
          match es.find? name with
          | some (.text replacement) =>
            if replacement.contains '<' then throw (.unusableEntity name)
            else es.expand depth replacement
          | some _ => throw (.unusableEntity name)
          | none => if es.incomplete then pure [] else throw (.undeclaredEntity name)
    pure parts.flatten

/-- The value of an attribute as written between its quotes. A chain of references that is longer than
the list of entities goes in a circle. -/
def attributeValue (es : Entities) (cs : List Char) : Except SyntaxError (List Char) :=
  es.expand (es.declared.length + 1) cs

/-- The entities a text refers to, apart from the predefined ones. -/
def references (cs : List Char) : List String :=
  match Symbol.read cs with
  | .ok symbols =>
    symbols.filterMap fun
      | .entity name => if (Symbol.predefined? name).isSome then none else some name
      | _ => none
  | .error _ => []

def expansionLimit : Nat := 1000000

/-- What each reference costs besides the length of its text. -/
def referenceCost : Nat := 20

def costOf (costs : List (String × Nat)) (name : String) : Nat :=
  match costs.find? fun c => c.1 == name with
  | some c => c.2
  | none => 0

/-- The cost of the references in a text, cut off above the limit. -/
def cost (costs : List (String × Nat)) (names : List String) : Nat :=
  names.foldl (fun n name => min (n + costOf costs name + referenceCost) (2 * expansionLimit)) 0

/-- The cost of each entity, with references followed `rounds` times. -/
def costs (es : Entities) : Nat → List (String × Nat)
  | 0 => []
  | rounds + 1 =>
    let known := es.costs rounds
    es.declared.map fun
      | (name, .text replacement) =>
        (name, replacement.length + cost known (references replacement))
      | (name, _) => (name, 0)

end Entities

end XmlShape.Xml
