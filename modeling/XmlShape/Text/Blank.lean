/-! # Blank characters and trimming -/

namespace XmlShape.Text

/-- White space, line and paragraph separators, and the four information separators. The zero-width
space and the byte order mark are not blank. -/
def isBlank (c : Char) : Bool :=
  let n := c.toNat
  (0x09 ≤ n && n ≤ 0x0D) || (0x1C ≤ n && n ≤ 0x20) || n == 0x85 || n == 0xA0 || n == 0x1680 ||
    (0x2000 ≤ n && n ≤ 0x200A) || n == 0x2028 || n == 0x2029 || n == 0x202F || n == 0x205F ||
    n == 0x3000

/-- The characters between the first and the last one that `blank` does not hold of. -/
def strip (blank : Char → Bool) (cs : List Char) : List Char :=
  ((cs.dropWhile blank).reverse.dropWhile blank).reverse

def trim (s : String) : String :=
  String.ofList (strip isBlank s.toList)

def isBlankText (s : String) : Bool :=
  s.toList.all isBlank

/-- The bytes of tab, line feed, vertical tab, form feed, carriage return and space. -/
def isBlankByte (b : UInt8) : Bool :=
  (0x09 ≤ b && b ≤ 0x0D) || b == 0x20

end XmlShape.Text
