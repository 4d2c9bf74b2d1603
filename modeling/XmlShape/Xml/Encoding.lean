import XmlShape.Text.Lowercase
import XmlShape.Xml.Declaration

/-! # Character encodings

The characters of a document given as bytes. A byte order mark decides the encoding; else the first
four bytes may show that characters take two bytes; else the XML declaration names the encoding, and
a document without one is in UTF-8. Encodings beyond those below are read by what is supplied for their names. -/

namespace XmlShape.Xml

inductive Encoding where
  | utf8
  | utf16 (bigEndian : Bool)
  | latin1
  | ascii
  | further (name : String)
deriving DecidableEq

/-- Readers of encodings by their names: none where a name is unknown, and no characters where bytes are no text
in the encoding. -/
abbrev Decoders := String → Option (ByteArray → Option (List Char))

def Decoders.none : Decoders :=
  fun _ => Option.none

namespace Encoding

/-- The encoding that a document without a byte order mark declares. The two-byte encodings cannot be
declared in a document that is readable one byte at a time. -/
def ofName? (name : String) : Option Encoding :=
  let name := Text.lower name
  if ["utf-8", "utf8"].contains name then some utf8
  else if ["iso-8859-1", "iso8859-1", "iso_8859-1", "iso-latin-1", "latin1", "l1"].contains name then
    some latin1
  else if ["us-ascii", "ascii"].contains name then some ascii
  else none

def latin1Chars (bytes : List UInt8) : List Char :=
  bytes.map fun b => Char.ofNat b.toNat

def asciiChars? (bytes : List UInt8) : Option (List Char) :=
  if bytes.all (· < 0x80) then some (latin1Chars bytes) else none

/-- Two bytes to a unit; none if a byte is left over. `done` holds the units so far, last first. -/
def unitsFrom? (bigEndian : Bool) (done : List Nat) : List UInt8 → Option (List Nat)
  | [] => some done.reverse
  | [_] => none
  | a :: b :: bytes =>
    let unit := if bigEndian then a.toNat * 256 + b.toNat else b.toNat * 256 + a.toNat
    unitsFrom? bigEndian (unit :: done) bytes

/-- Joins each high surrogate with the low one after it; none if one stands alone. -/
def utf16CharsFrom? (done : List Char) : List Nat → Option (List Char)
  | [] => some done.reverse
  | [u] => if 0xD800 ≤ u && u < 0xE000 then none else some (Char.ofNat u :: done).reverse
  | u :: v :: units =>
    if 0xD800 ≤ u && u < 0xDC00 then
      if 0xDC00 ≤ v && v < 0xE000 then
        utf16CharsFrom? (Char.ofNat (0x10000 + (u - 0xD800) * 0x400 + (v - 0xDC00)) :: done) units
      else none
    else if 0xDC00 ≤ u && u < 0xE000 then none
    else utf16CharsFrom? (Char.ofNat u :: done) (v :: units)

def decode? (decoders : Decoders) (encoding : Encoding) (bytes : ByteArray) : Option (List Char) :=
  match encoding with
  | utf8 => (String.fromUTF8? bytes).map String.toList
  | utf16 bigEndian => do
    let units ← unitsFrom? bigEndian [] bytes.data.toList
    utf16CharsFrom? [] units
  | latin1 => some (latin1Chars bytes.data.toList)
  | ascii => asciiChars? bytes.data.toList
  | further name => (decoders name).bind fun decoder => decoder bytes

def detect? (bytes : List UInt8) : Option (Encoding × Nat) :=
  match bytes.take 4 with
  | 0xEF :: 0xBB :: 0xBF :: _ => some (utf8, 3)
  | 0xFE :: 0xFF :: _ => some (utf16 true, 2)
  | 0xFF :: 0xFE :: _ => some (utf16 false, 2)
  | [0x3C, 0x00, 0x3F, 0x00] => some (utf16 false, 0)
  | [0x00, 0x3C, 0x00, 0x3F] => some (utf16 true, 0)
  | _ => none

/-- The encoding that the XML declaration names, or UTF-8. The declaration itself is in ASCII. -/
def declared (decoders : Decoders) (bytes : ByteArray) : Except SyntaxError Encoding := do
  match Declaration.opening? (latin1Chars (bytes.data.toList.take 6)) with
  | none => pure utf8
  | some _ =>
    let (d, _) ← Declaration.read (latin1Chars bytes.data.toList)
    match d.encoding with
    | none => pure utf8
    | some name =>
      match ofName? name with
      | some encoding => pure encoding
      | none => if (decoders name).isSome then pure (further name) else throw (.unknownEncoding name)

def decode (decoders : Decoders) (bytes : ByteArray) : Except SyntaxError (List Char) := do
  let (encoding, mark) ←
    match detect? (bytes.data.toList.take 4) with
    | some found => pure found
    | none => (declared decoders bytes).map fun encoding => (encoding, 0)
  match encoding.decode? decoders (bytes.extract mark bytes.size) with
  | some cs => pure cs
  | none => throw .undecodable

end Encoding

/-- The characters of a text that is already decoded, without a byte order mark. -/
def withoutMark : List Char → List Char
  | '\uFEFF' :: cs => cs
  | cs => cs

/-- Writes every line end as a line feed; `done` holds the characters so far, last first. -/
def joinLineEnds (done : List Char) : List Char → List Char
  | [] => done.reverse
  | '\r' :: '\n' :: cs => joinLineEnds ('\n' :: done) cs
  | '\r' :: cs => joinLineEnds ('\n' :: done) cs
  | c :: cs => joinLineEnds (c :: done) cs

def normalize (cs : List Char) : Except SyntaxError (List Char) :=
  if cs.all isChar then .ok (joinLineEnds [] cs) else .error .forbiddenCharacter

end XmlShape.Xml
