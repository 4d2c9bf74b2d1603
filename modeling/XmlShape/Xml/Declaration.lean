import XmlShape.Xml.Error
import XmlShape.Xml.Scan

/-! # The XML declaration -/

namespace XmlShape.Xml

structure Declaration where
  version : String
  encoding : Option String
  standalone : Bool

namespace Declaration

def default : Declaration :=
  ⟨"1.0", none, false⟩

/-- A digit, a dot and any number of digits. -/
def isVersion : List Char → Bool
  | d :: '.' :: ds => d.isDigit && ds.all Char.isDigit
  | _ => false

def isEncodingName : List Char → Bool
  | c :: cs => c.isAlpha && cs.all fun c => c.isAlphanum || c == '.' || c == '_' || c == '-'
  | [] => false

def field? (name : String) (cs : List Char) : Option (List Char × List Char) := do
  let cs ← after? name cs
  let cs ← afterEquals? cs
  literal? cs

def version? (cs : List Char) : Option (String × List Char) := do
  let cs ← afterSpace? cs
  let (value, rest) ← field? "version" cs
  if isVersion value then some (String.ofList value, rest) else none

/-- The encoding, if one is named; the field needs space before it. -/
def encoding? (cs : List Char) : Option (Option String × List Char) :=
  match afterSpace? cs with
  | none => some (none, cs)
  | some inner =>
    match after? "encoding" inner with
    | none => some (none, cs)
    | some _ => do
      let (value, rest) ← field? "encoding" inner
      if isEncodingName value then some (some (String.ofList value), rest) else none

def standalone? (cs : List Char) : Option (Bool × List Char) :=
  match afterSpace? cs with
  | none => some (false, cs)
  | some inner =>
    match after? "standalone" inner with
    | none => some (false, cs)
    | some _ => do
      let (value, rest) ← field? "standalone" inner
      if value = ['y', 'e', 's'] then some (true, rest)
      else if value = ['n', 'o'] then some (false, rest)
      else none

def fields? (cs : List Char) : Option (Declaration × List Char) := do
  let (version, cs) ← version? cs
  let (encoding, cs) ← encoding? cs
  let (standalone, cs) ← standalone? cs
  let cs ← after? "?>" (skipSpace cs)
  pure (⟨version, encoding, standalone⟩, cs)

/-- What follows the opening of a declaration at the very start of the document. -/
def opening? (cs : List Char) : Option (List Char) :=
  match after? "<?xml" cs with
  | some (c :: cs) => if isSpace c then some (c :: cs) else none
  | _ => none

def isSupported (version : String) : Bool :=
  ['1', '.'].isPrefixOf version.toList

def read (cs : List Char) : Except SyntaxError (Declaration × List Char) :=
  match opening? cs with
  | none => .ok (default, cs)
  | some inner =>
    match fields? inner with
    | none => .error .malformedDeclaration
    | some (d, rest) =>
      if isSupported d.version then .ok (d, rest) else .error (.unsupportedVersion d.version)

end Declaration

end XmlShape.Xml
