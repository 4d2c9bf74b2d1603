import XmlShape.Text.Blank

/-! # Whole numbers written in any decimal digits

A whole number as a person may write it: blanks around it, a sign, digits of any script, and single
low lines between digits. -/

namespace XmlShape.Text

/-- The zeros of the scripts that have decimal digits; the digits one to nine follow each. -/
def zeroCodes : List Nat :=
  [
    0x30, 0x660, 0x6F0, 0x7C0, 0x966, 0x9E6, 0xA66, 0xAE6, 0xB66, 0xBE6, 0xC66, 0xCE6, 0xD66,
    0xDE6, 0xE50, 0xED0, 0xF20, 0x1040, 0x1090, 0x17E0, 0x1810, 0x1946, 0x19D0, 0x1A80, 0x1A90,
    0x1B50, 0x1BB0, 0x1C40, 0x1C50, 0xA620, 0xA8D0, 0xA900, 0xA9D0, 0xA9F0, 0xAA50, 0xABF0,
    0xFF10, 0x104A0, 0x10D30, 0x11066, 0x110F0, 0x11136, 0x111D0, 0x112F0, 0x11450, 0x114D0,
    0x11650, 0x116C0, 0x11730, 0x118E0, 0x11950, 0x11C50, 0x11D50, 0x11DA0, 0x16A60, 0x16AC0,
    0x16B50, 0x1D7CE, 0x1D7D8, 0x1D7E2, 0x1D7EC, 0x1D7F6, 0x1E140, 0x1E2F0, 0x1E950, 0x1FBF0
  ]

def decimalDigit? (c : Char) : Option Nat :=
  if c.toNat < 0x80 then
    if c.isDigit then some (c.toNat - 0x30) else none
  else
    (zeroCodes.find? fun z => z ≤ c.toNat && c.toNat ≤ z + 9).map (c.toNat - ·)

/-- The digits of a number in which each low line stands between two digits. -/
def groupedDigits? : List Char → Option (List Nat)
  | [] => none
  | [c] => (decimalDigit? c).map ([·])
  | c :: '_' :: cs => do
    let d ← decimalDigit? c
    let ds ← groupedDigits? cs
    pure (d :: ds)
  | c :: cs => do
    let d ← decimalDigit? c
    let ds ← groupedDigits? cs
    pure (d :: ds)

def maxDigits : Nat := 4300

def natural? (cs : List Char) : Option Nat := do
  let ds ← groupedDigits? cs
  if ds.length ≤ maxDigits then some (ds.foldl (fun n d => 10 * n + d) 0) else none

/-- White space around a number; the information separators do not count as such here. -/
def isNumberBlank (c : Char) : Bool :=
  isBlank c && !(0x1C ≤ c.toNat && c.toNat ≤ 0x1F)

def integer? (s : String) : Option Int :=
  match strip isNumberBlank s.toList with
  | '-' :: cs => (natural? cs).map fun n => -(n : Int)
  | '+' :: cs => (natural? cs).map fun n => (n : Int)
  | cs => (natural? cs).map fun n => (n : Int)

end XmlShape.Text
