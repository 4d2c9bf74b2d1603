import XmlShape.Xml.Doctype

/-! # The internal subset in effect

What the declarations of a document type add up to: the entities, and the types and default values of
attributes. Of several declarations of one thing the first counts. -/

namespace XmlShape.Xml

structure Subset where
  entities : Entities
  /-- The parameter entities, which stand for declarations. -/
  parameters : List (String × EntityValue)
  /-- The attribute rules, with default values as they are used. -/
  rules : List AttributeRule

namespace Subset

def empty : Subset :=
  ⟨Entities.empty, [], []⟩

/-- Replaces each run of spaces by one space; `parted` says whether a space now would be one too many. -/
def singleSpaced (parted : Bool) : List Char → List Char
  | [] => []
  | c :: cs =>
    if c = ' ' then if parted then singleSpaced true cs else c :: singleSpaced true cs
    else c :: singleSpaced false cs

/-- The value of an attribute that holds tokens, without spaces around them. -/
def tokenValue (cs : List Char) : List Char :=
  ((singleSpaced true cs).reverse.dropWhile (· == ' ')).reverse

def typedValue (type : AttributeType) (cs : List Char) : List Char :=
  if type = .text then cs else tokenValue cs

def rule? (s : Subset) (element name : String) : Option AttributeRule :=
  s.rules.find? fun r => r.element == element && r.name == name

def addEntity (s : Subset) (name : String) (value : EntityValue) : Subset :=
  if (Symbol.predefined? name).isSome then s
  else { s with entities := { s.entities with declared := s.entities.declared ++ [(name, value)] } }

/-- Adds a rule unless the attribute has one; the value must be usable in any case. -/
def addRule (s : Subset) (r : AttributeRule) : Except SyntaxError Subset := do
  let value ←
    match r.value with
    | some value => (s.entities.attributeValue value).map fun v => some (typedValue r.type v)
    | none => pure none
  if (s.rule? r.element r.name).isSome then pure s
  else pure { s with rules := s.rules ++ [{ r with value }] }

/-- Parts of the subset may be elsewhere, unless the document stands alone. -/
def addInclusion (s : Subset) (standalone : Bool) : Subset :=
  { s with entities := { s.entities with incomplete := s.entities.incomplete || !standalone } }

/-- Applies declarations one after the other; parameter entities are followed to `depth` levels. -/
def apply (standalone : Bool) : Nat → Subset → List MarkupDecl → Except SyntaxError Subset
  | 0, _, _ => .error .excessiveExpansion
  | depth + 1, s, ms =>
    ms.foldlM (fun s m =>
      match m with
      | .entity name value => pure (s.addEntity name value)
      | .parameter name value => pure { s with parameters := s.parameters ++ [(name, value)] }
      | .attributes rules => rules.foldlM addRule s
      | .other => pure s
      | .inclusion name =>
        match s.parameters.find? fun p => p.1 == name with
        | some (_, .text replacement) => do
          match ← MarkupDecl.readFrom (replacement.length + 1) [] replacement with
          | (inner, []) => apply standalone depth (s.addInclusion standalone) inner
          | _ => throw .malformedDoctype
        | some _ => pure (s.addInclusion standalone)
        | none =>
          if standalone then throw (.undeclaredEntity name) else pure (s.addInclusion standalone))
      s

def maxDepth : Nat := 40

def ofDoctype (standalone : Bool) (d : DoctypeDecl) : Except SyntaxError Subset :=
  apply standalone maxDepth
    { empty with entities := ⟨[], d.hasExternal && !standalone⟩ } d.subset

/-- The attributes of a tag with their values in effect, and after them those left to their defaults. -/
def attributes (s : Subset) (element : String) (written : List (String × List Char)) :
    Except SyntaxError (List (String × String)) := do
  let given ← written.mapM fun a => do
    let value ← s.entities.attributeValue a.2
    let type := ((s.rule? element a.1).map (·.type)).getD .text
    pure (a.1, String.ofList (typedValue type value))
  let defaults := s.rules.filterMap fun r =>
    if r.element == element && !(written.any fun a => a.1 == r.name) then
      r.value.map fun v => (r.name, String.ofList v)
    else none
  pure (given ++ defaults)

end Subset

end XmlShape.Xml
