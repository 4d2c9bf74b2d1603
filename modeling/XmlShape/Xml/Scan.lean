import XmlShape.Xml.Char

/-! # Scanning

Parts that the grammar of XML shares. Each takes the characters still to be read and returns what it
found with the characters after it. -/

namespace XmlShape.Xml

def skipSpace (cs : List Char) : List Char :=
  cs.dropWhile isSpace

def afterSpace? : List Char → Option (List Char)
  | c :: cs => if isSpace c then some (skipSpace cs) else none
  | [] => none

def after? (word : String) (cs : List Char) : Option (List Char) :=
  word.toList.isPrefixOf? cs

def name? : List Char → Option (String × List Char)
  | c :: cs =>
    if isNameStart c then
      let (more, rest) := cs.span isNameChar
      some (String.ofList (c :: more), rest)
    else none
  | [] => none

def nameToken? (cs : List Char) : Option (String × List Char) :=
  let (found, rest) := cs.span isNameChar
  if found.isEmpty then none else some (String.ofList found, rest)

/-- The characters before the first `stop`, and those after it; `before` holds the ones already passed,
last first. -/
def splitFrom? (stop before : List Char) : List Char → Option (List Char × List Char)
  | [] => none
  | c :: cs =>
    match stop.isPrefixOf? (c :: cs) with
    | some rest => some (before.reverse, rest)
    | none => splitFrom? stop (c :: before) cs

def splitAt? (stop : String) (cs : List Char) : Option (List Char × List Char) :=
  splitFrom? stop.toList [] cs

def literal? : List Char → Option (List Char × List Char)
  | '"' :: cs => splitAt? "\"" cs
  | '\'' :: cs => splitAt? "'" cs
  | _ => none

/-- What follows an equals sign with space around it. -/
def afterEquals? (cs : List Char) : Option (List Char) := do
  let cs ← after? "=" (skipSpace cs)
  pure (skipSpace cs)

end XmlShape.Xml
