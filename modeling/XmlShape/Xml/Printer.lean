import XmlShape.Element
import XmlShape.Xml.Char

/-! # Writing XML

An indented document for a tree whose elements hold no text. Indentation grows by two spaces a level
up to sixty spaces. -/

namespace XmlShape.Xml

inductive PrintError where
  | forbiddenCharacter
deriving DecidableEq

def PrintError.message : PrintError → String
  | forbiddenCharacter =>
    "All strings must be XML compatible: Unicode or ASCII, no NULL bytes or control characters"

def escapeChar (c : Char) : List Char :=
  if c = '&' then ['&', 'a', 'm', 'p', ';']
  else if c = '<' then ['&', 'l', 't', ';']
  else if c = '>' then ['&', 'g', 't', ';']
  else if c = '"' then ['&', 'q', 'u', 'o', 't', ';']
  else if c = '\n' then ['&', '#', '1', '0', ';']
  else if c = '\r' then ['&', '#', '1', '3', ';']
  else if c = '\t' then ['&', '#', '9', ';']
  else [c]

def escape (s : String) : String :=
  String.ofList (s.toList.flatMap escapeChar)

def attributeText (a : String × String) : String :=
  " " ++ a.1 ++ "=\"" ++ escape a.2 ++ "\""

def tagText (name : String) (namespaces attributes : List (String × String)) : String :=
  name ++ String.join (namespaces.map attributeText) ++ String.join (attributes.map attributeText)

def indentation (level : Nat) : String :=
  String.ofList (List.replicate (min (2 * level) 60) ' ')

mutual
/-- The lines of an element on nesting level `level`, without their line ends. -/
def lines (level : Nat) : Element → List String
  | ⟨name, attributes, children, _, namespaces⟩ =>
    let tag := tagText name namespaces attributes
    if children.isEmpty then [indentation level ++ "<" ++ tag ++ "/>"]
    else
      (indentation level ++ "<" ++ tag ++ ">") ::
        (linesAll (level + 1) children ++ [indentation level ++ "</" ++ name ++ ">"])

def linesAll (level : Nat) : List Element → List String
  | [] => []
  | e :: es => lines level e ++ linesAll level es
end

mutual
/-- Whether all attribute values hold only characters that XML allows. -/
def isPrintable : Element → Bool
  | ⟨_, attributes, children, _, _⟩ =>
    attributes.all (fun a => a.2.toList.all isChar) && arePrintable children

def arePrintable : List Element → Bool
  | [] => true
  | e :: es => isPrintable e && arePrintable es
end

def declaration : String := "<?xml version='1.0' encoding='UTF-8'?>"

def print (root : Element) : Except PrintError String :=
  if isPrintable root then
    .ok (String.join ((declaration :: lines 0 root).map (· ++ "\n")))
  else .error .forbiddenCharacter

end XmlShape.Xml
