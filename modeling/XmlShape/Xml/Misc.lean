import XmlShape.Text.Lowercase
import XmlShape.Xml.Error
import XmlShape.Xml.Scan

/-! # Comments and processing instructions -/

namespace XmlShape.Xml

/-- The content of a comment after its opening, and what follows it. Two hyphens end the comment. -/
def readComment (cs : List Char) : Except SyntaxError (List Char × List Char) :=
  match splitAt? "--" cs with
  | some (content, '>' :: rest) => .ok (content, rest)
  | _ => .error .malformedComment

/-- The target of an instruction: a name without a colon that is not the one of the XML declaration. -/
def target? (cs : List Char) : Option (String × List Char) := do
  let (name, rest) ← name? cs
  if Text.lower name = "xml" || name.toList.contains ':' then none else some (name, rest)

/-- The target and content of an instruction after its opening, and what follows it. -/
def readInstruction (cs : List Char) : Except SyntaxError (String × List Char × List Char) :=
  match target? cs with
  | none => .error .malformedInstruction
  | some (name, rest) =>
    match after? "?>" rest with
    | some rest => .ok (name, [], rest)
    | none =>
      match (afterSpace? rest).bind (splitAt? "?>") with
      | some (content, rest) => .ok (name, content, rest)
      | none => .error .malformedInstruction

end XmlShape.Xml
