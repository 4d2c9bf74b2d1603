/-! # What makes a document unreadable -/

namespace XmlShape.Xml

inductive SyntaxError where
  /-- Bytes that are no text in the document's encoding. -/
  | undecodable
  | unknownEncoding (name : String)
  | forbiddenCharacter
  | malformedDeclaration
  | unsupportedVersion (version : String)
  | malformedDoctype
  | misplacedDoctype
  | malformedComment
  | malformedInstruction
  | unclosedSection
  | malformedTag
  | malformedReference
  /-- The end of a character data section where none is open. -/
  | straySectionEnd
  | undeclaredEntity (name : String)
  /-- An entity that cannot be used where it is referred to. -/
  | unusableEntity (name : String)
  | recursiveEntity (name : String)
  | excessiveExpansion
  | mismatchedTag (name : String)
  | unclosedElement (name : String)
  | contentOutsideRoot
  | noRoot
  | tooDeep
  | malformedName (name : String)
  | duplicateAttribute (name : String)
  | undeclaredPrefix (name : String)
  /-- A namespace declaration that is against the rules. -/
  | badNamespace (name : String)
  | badIdentifier (value : String)
  | duplicateIdentifier (value : String)
deriving DecidableEq

def SyntaxError.message : SyntaxError → String
  | undecodable => "the bytes are no text in the document's encoding"
  | unknownEncoding name => "unknown encoding " ++ name
  | forbiddenCharacter => "a character that XML does not allow"
  | malformedDeclaration => "malformed XML declaration"
  | unsupportedVersion version => "unsupported version " ++ version
  | malformedDoctype => "malformed document type declaration"
  | misplacedDoctype => "misplaced document type declaration"
  | malformedComment => "malformed comment"
  | malformedInstruction => "malformed processing instruction"
  | unclosedSection => "unclosed character data section"
  | malformedTag => "malformed tag"
  | malformedReference => "malformed reference"
  | straySectionEnd => "end of a character data section where none is open"
  | undeclaredEntity name => "undeclared entity " ++ name
  | unusableEntity name => "entity " ++ name ++ " cannot be used here"
  | recursiveEntity name => "entity " ++ name ++ " refers to itself"
  | excessiveExpansion => "entities expand to too much text"
  | mismatchedTag name => "unexpected end tag " ++ name
  | unclosedElement name => "unclosed element " ++ name
  | contentOutsideRoot => "content outside the root element"
  | noRoot => "no root element"
  | tooDeep => "elements nested too deeply"
  | malformedName name => "malformed name " ++ name
  | duplicateAttribute name => "duplicate attribute " ++ name
  | undeclaredPrefix name => "undeclared prefix in " ++ name
  | badNamespace name => "bad namespace declaration for prefix " ++ name
  | badIdentifier value => "malformed identifier " ++ value
  | duplicateIdentifier value => "duplicate identifier " ++ value

inductive ReadError where
  | emptyInput
  | malformed (cause : SyntaxError)
deriving DecidableEq

end XmlShape.Xml
