/-! # Characters of XML -/

namespace XmlShape.Xml

def isChar (c : Char) : Bool :=
  let n := c.toNat
  (0x20 ≤ n || n == 0x09 || n == 0x0A || n == 0x0D) && n != 0xFFFE && n != 0xFFFF

def isSpace (c : Char) : Bool :=
  c == ' ' || c == '\n' || c == '\t' || c == '\r'

def isNameStart (c : Char) : Bool :=
  let n := c.toNat
  c.isAlpha || c == '_' || c == ':' || (0xC0 ≤ n && n ≤ 0x2FF && n != 0xD7 && n != 0xF7) ||
    (0x370 ≤ n && n ≤ 0x1FFF && n != 0x37E) || n == 0x200C || n == 0x200D ||
    (0x2070 ≤ n && n ≤ 0x218F) || (0x2C00 ≤ n && n ≤ 0x2FEF) || (0x3001 ≤ n && n ≤ 0xD7FF) ||
    (0xF900 ≤ n && n ≤ 0xFDCF) || (0xFDF0 ≤ n && n ≤ 0xFFFD) || (0x10000 ≤ n && n ≤ 0xEFFFF)

def isNameChar (c : Char) : Bool :=
  let n := c.toNat
  isNameStart c || c == '-' || c == '.' || c.isDigit || n == 0xB7 || (0x300 ≤ n && n ≤ 0x36F) ||
    n == 0x203F || n == 0x2040

def isPublicChar (c : Char) : Bool :=
  c == ' ' || c == '\n' || c == '\r' || c.isAlphanum || "-'()+,./:=?;!*#@$_%".toList.contains c

end XmlShape.Xml
