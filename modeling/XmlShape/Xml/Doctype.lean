import XmlShape.Xml.ContentModel
import XmlShape.Xml.Entity
import XmlShape.Xml.Misc

/-! # Document type declarations

The declarations of the internal subset, as written. Nothing outside the document is read. -/

namespace XmlShape.Xml

inductive AttributeType where
  | text
  | identifier
  /-- Any type whose values are parted by single spaces. -/
  | tokens
deriving DecidableEq

structure AttributeRule where
  element : String
  name : String
  type : AttributeType
  value : Option (List Char)

inductive MarkupDecl where
  | entity (name : String) (value : EntityValue)
  | parameter (name : String) (value : EntityValue)
  | attributes (rules : List AttributeRule)
  /-- The place of a parameter entity's text. -/
  | inclusion (name : String)
  /-- An element type, a notation, a comment or an instruction. -/
  | other

structure DoctypeDecl where
  name : String
  hasExternal : Bool
  subset : List MarkupDecl

namespace MarkupDecl

/-- The text of a symbol inside an entity's value. Characters given by number are put in at once. -/
def valueText : Symbol → List Char
  | .raw c => [c]
  | .numbered c => [c]
  | .entity name => '&' :: name.toList ++ [';']

/-- The replacement text for an entity's value; a percent sign would refer to a parameter entity, which
is not allowed there. -/
def replacement? (value : List Char) : Option (List Char) :=
  if value.contains '%' then none
  else
    match Symbol.read value with
    | .ok symbols => some (symbols.flatMap valueText)
    | .error _ => none

def publicLiteral? (cs : List Char) : Option (List Char) := do
  let (id, rest) ← literal? cs
  if id.all isPublicChar then some rest else none

/-- What follows a system identifier, or a public and a system identifier. -/
def afterExternal? (cs : List Char) : Option (List Char) :=
  match after? "SYSTEM" cs with
  | some cs => do
    let cs ← afterSpace? cs
    let (_, rest) ← literal? cs
    some rest
  | none => do
    let cs ← after? "PUBLIC" cs
    let cs ← afterSpace? cs
    let cs ← publicLiteral? cs
    let cs ← afterSpace? cs
    let (_, rest) ← literal? cs
    some rest

def plainName? (cs : List Char) : Option (String × List Char) := do
  let (name, rest) ← name? cs
  if name.toList.contains ':' then none else some (name, rest)

/-- Whether the entity is an unparsed one, and what follows. -/
def unparsed? (cs : List Char) : Option (Bool × List Char) :=
  match (afterSpace? cs).bind (after? "NDATA") with
  | none => some (false, cs)
  | some cs => do
    let cs ← afterSpace? cs
    let (_, rest) ← name? cs
    some (true, rest)

def entityValue? (cs : List Char) : Option (EntityValue × List Char) :=
  match literal? cs with
  | some (value, rest) => do
    let replacement ← replacement? value
    some (.text replacement, rest)
  | none => do
    let rest ← afterExternal? cs
    let (isUnparsed, rest) ← unparsed? rest
    some (if isUnparsed then .unparsed else .external, rest)

def afterEnd? (cs : List Char) : Option (List Char) :=
  after? ">" (skipSpace cs)

def entity? (cs : List Char) : Option (MarkupDecl × List Char) := do
  let cs ← afterSpace? cs
  match (after? "%" cs).bind afterSpace? with
  | some cs => do
    let (name, cs) ← plainName? cs
    let cs ← afterSpace? cs
    let (value, cs) ← entityValue? cs
    let rest ← afterEnd? cs
    if value = .unparsed then none else some (parameter name value, rest)
  | none => do
    let (name, cs) ← plainName? cs
    let cs ← afterSpace? cs
    let (value, cs) ← entityValue? cs
    let rest ← afterEnd? cs
    some (entity name value, rest)

/-- The rest of a list in parentheses whose items `item?` reads. -/
def choices? (item? : List Char → Option (String × List Char)) : Nat → List Char → Option (List Char)
  | 0, _ => none
  | fuel + 1, cs => do
    let (_, cs) ← item? (skipSpace cs)
    match skipSpace cs with
    | ')' :: rest => some rest
    | '|' :: rest => choices? item? fuel rest
    | _ => none

/-- The types of attributes that a word names. A longer word stands before its beginning. -/
def typeWords : List (String × AttributeType) :=
  [("CDATA", .text), ("IDREFS", .tokens), ("IDREF", .tokens), ("ID", .identifier),
    ("ENTITIES", .tokens), ("ENTITY", .tokens), ("NMTOKENS", .tokens), ("NMTOKEN", .tokens)]

def attributeType? (cs : List Char) : Option (AttributeType × List Char) :=
  match typeWords.findSome? fun w => (after? w.1 cs).map fun rest => (w.2, rest) with
  | some found => some found
  | none =>
    match cs with
    | '(' :: cs => (choices? nameToken? (cs.length + 1) cs).map fun rest => (.tokens, rest)
    | cs => do
      let cs ← after? "NOTATION" cs
      let cs ← afterSpace? cs
      let cs ← after? "(" cs
      let rest ← choices? name? (cs.length + 1) cs
      some (.tokens, rest)

def defaultValue? (cs : List Char) : Option (Option (List Char) × List Char) :=
  match after? "#REQUIRED" cs with
  | some rest => some (none, rest)
  | none =>
    match after? "#IMPLIED" cs with
    | some rest => some (none, rest)
    | none => do
      let cs ←
        match after? "#FIXED" cs with
        | some cs => afterSpace? cs
        | none => some cs
      let (value, rest) ← literal? cs
      if value.contains '<' then none else some (some value, rest)

def rule? (element : String) (cs : List Char) : Option (AttributeRule × List Char) := do
  let (name, cs) ← name? cs
  let cs ← afterSpace? cs
  let (type, cs) ← attributeType? cs
  let cs ← afterSpace? cs
  let (value, rest) ← defaultValue? cs
  some (⟨element, name, type, value⟩, rest)

/-- The rules of one declaration; `done` holds those already read, last first. -/
def rulesFrom? (element : String) (done : List AttributeRule) :
    Nat → List Char → Option (List AttributeRule × List Char)
  | 0, _ => none
  | fuel + 1, cs =>
    match afterEnd? cs with
    | some rest => some (done.reverse, rest)
    | none => do
      let cs ← afterSpace? cs
      let (rule, cs) ← rule? element cs
      rulesFrom? element (rule :: done) fuel cs

def attributes? (cs : List Char) : Option (MarkupDecl × List Char) := do
  let cs ← afterSpace? cs
  let (element, cs) ← name? cs
  let (rules, rest) ← rulesFrom? element [] (cs.length + 1) cs
  some (attributes rules, rest)

def elementType? (cs : List Char) : Option (MarkupDecl × List Char) := do
  let cs ← afterSpace? cs
  let (_, cs) ← name? cs
  let cs ← afterSpace? cs
  let cs ← ContentModel.after? cs
  let rest ← afterEnd? cs
  some (other, rest)

/-- The identifiers of a notation, of which the system identifier may be missing. -/
def notationId? (cs : List Char) : Option (List Char) :=
  match afterExternal? cs with
  | some rest => some rest
  | none => do
    let cs ← after? "PUBLIC" cs
    let cs ← afterSpace? cs
    publicLiteral? cs

def notationDecl? (cs : List Char) : Option (MarkupDecl × List Char) := do
  let cs ← afterSpace? cs
  let (_, cs) ← plainName? cs
  let cs ← afterSpace? cs
  let cs ← notationId? cs
  let rest ← afterEnd? cs
  some (other, rest)

def inclusion? (cs : List Char) : Option (MarkupDecl × List Char) := do
  let (name, cs) ← name? cs
  let rest ← after? ";" cs
  some (inclusion name, rest)

def ofOption : Option (MarkupDecl × List Char) → Except SyntaxError (MarkupDecl × List Char)
  | some found => .ok found
  | none => .error .malformedDoctype

def next (cs : List Char) : Except SyntaxError (MarkupDecl × List Char) :=
  match cs with
  | '%' :: cs => ofOption (inclusion? cs)
  | '<' :: '?' :: cs => do
    let (_, _, rest) ← readInstruction cs
    pure (other, rest)
  | '<' :: '!' :: '-' :: '-' :: cs => do
    let (_, rest) ← readComment cs
    pure (other, rest)
  | '<' :: '!' :: cs =>
    match after? "ENTITY" cs, after? "ATTLIST" cs, after? "ELEMENT" cs, after? "NOTATION" cs with
    | some cs, _, _, _ => ofOption (entity? cs)
    | _, some cs, _, _ => ofOption (attributes? cs)
    | _, _, some cs, _ => ofOption (elementType? cs)
    | _, _, _, some cs => ofOption (notationDecl? cs)
    | _, _, _, _ => .error .malformedDoctype
  | _ => .error .malformedDoctype

/-- Declarations up to one that cannot begin with the next character, and what follows them. `fuel` is
at least the number of characters, and `done` holds the declarations so far, last first. -/
def readFrom : Nat → List MarkupDecl → List Char → Except SyntaxError (List MarkupDecl × List Char)
  | 0, _, _ => .error .malformedDoctype
  | fuel + 1, done, cs =>
    match skipSpace cs with
    | [] => .ok (done.reverse, [])
    | ']' :: rest => .ok (done.reverse, ']' :: rest)
    | cs => do
      let (m, rest) ← next cs
      readFrom fuel (m :: done) rest

end MarkupDecl

namespace DoctypeDecl

def readSubset (cs : List Char) : Except SyntaxError (List MarkupDecl × List Char) :=
  match cs with
  | '[' :: cs => do
    match ← MarkupDecl.readFrom (cs.length + 1) [] cs with
    | (subset, ']' :: rest) => pure (subset, skipSpace rest)
    | _ => throw .malformedDoctype
  | cs => .ok ([], cs)

def external? (cs : List Char) : Option (Bool × List Char) :=
  if (after? "SYSTEM" cs).isSome || (after? "PUBLIC" cs).isSome then
    (MarkupDecl.afterExternal? cs).map fun rest => (true, skipSpace rest)
  else some (false, cs)

def head? (cs : List Char) : Option (String × Bool × List Char) := do
  let cs ← afterSpace? cs
  let (name, cs) ← name? cs
  let (hasExternal, cs) ← external? (skipSpace cs)
  some (name, hasExternal, cs)

/-- The declaration after its opening, and what follows it. -/
def read (cs : List Char) : Except SyntaxError (DoctypeDecl × List Char) :=
  match head? cs with
  | none => .error .malformedDoctype
  | some (name, hasExternal, cs) => do
    match ← readSubset cs with
    | (subset, '>' :: rest) => pure (⟨name, hasExternal, subset⟩, rest)
    | _ => throw .malformedDoctype

end DoctypeDecl

end XmlShape.Xml
