import XmlShape.Xml.Error
import XmlShape.Xml.Scan

/-! # References

Text in a document is a run of symbols: characters as they stand, characters given by number, and
references to entities. -/

namespace XmlShape.Xml

inductive Symbol where
  | raw (c : Char)
  | numbered (c : Char)
  | entity (name : String)
deriving DecidableEq

namespace Symbol

def hexValue? (c : Char) : Option Nat :=
  if c.isDigit then some (c.toNat - 48)
  else if 'a' ≤ c && c ≤ 'f' then some (c.toNat - 87)
  else if 'A' ≤ c && c ≤ 'F' then some (c.toNat - 55)
  else none

def decimalValue? (c : Char) : Option Nat :=
  if c.isDigit then some (c.toNat - 48) else none

/-- The number that one or more digits write. -/
def number? (base : Nat) (digit? : Char → Option Nat) (cs : List Char) : Option Nat :=
  if cs.isEmpty then none
  else cs.foldlM (fun n c => (digit? c).map (base * n + ·)) 0

/-- The symbol between an ampersand and a semicolon, and what follows. -/
def reference? : List Char → Option (Symbol × List Char)
  | '#' :: 'x' :: cs => do
    let (digits, rest) ← splitAt? ";" cs
    let n ← number? 16 hexValue? digits
    if isChar (Char.ofNat n) then some (numbered (Char.ofNat n), rest) else none
  | '#' :: cs => do
    let (digits, rest) ← splitAt? ";" cs
    let n ← number? 10 decimalValue? digits
    if isChar (Char.ofNat n) then some (numbered (Char.ofNat n), rest) else none
  | cs => do
    let (name, rest) ← name? cs
    let rest ← after? ";" rest
    some (entity name, rest)

/-- The symbols of a text; `fuel` is at least its length, and `done` holds those already read, last
first. -/
def readFrom : Nat → List Symbol → List Char → Except SyntaxError (List Symbol)
  | _, done, [] => .ok done.reverse
  | 0, _, _ => .error .malformedReference
  | fuel + 1, done, '&' :: cs =>
    match reference? cs with
    | some (s, rest) => readFrom fuel (s :: done) rest
    | none => .error .malformedReference
  | fuel + 1, done, c :: cs => readFrom fuel (raw c :: done) cs

def read (cs : List Char) : Except SyntaxError (List Symbol) :=
  readFrom cs.length [] cs

def predefined? : String → Option Char
  | "lt" => some '<'
  | "gt" => some '>'
  | "amp" => some '&'
  | "apos" => some '\''
  | "quot" => some '"'
  | _ => none

end Symbol

end XmlShape.Xml
