import XmlShape.Text.Blank
import XmlShape.Xml.Conformance
import XmlShape.Xml.Encoding

/-! # Reading documents -/

namespace XmlShape.Xml

def readTree (cs : List Char) : Except SyntaxError (Subset × Node) := do
  let cs ← normalize cs
  let (declaration, cs) ← Declaration.read cs
  let tokens ← Token.read cs
  let (subset, root) ← Node.ofTokens declaration.standalone tokens
  root.check subset
  pure (subset, root)

def readRoot (cs : List Char) : Except SyntaxError Element := do
  let (_, root) ← readTree cs
  match root.element? [] with
  | some e => pure e
  | none => throw .noRoot

def asReadError (r : Except SyntaxError Element) : Except ReadError Element :=
  match r with
  | .ok e => .ok e
  | .error cause => .error (.malformed cause)

/-- Reads text that is already decoded; an encoding in its XML declaration means nothing. -/
def readText (s : String) : Except ReadError Element :=
  if Text.isBlankText s then .error .emptyInput
  else asReadError (readRoot (withoutMark s.toList))

def readBytes (decoders : Decoders) (bytes : ByteArray) : Except ReadError Element :=
  if bytes.data.toList.all Text.isBlankByte then .error .emptyInput
  else asReadError (Encoding.decode decoders bytes >>= readRoot)

end XmlShape.Xml
