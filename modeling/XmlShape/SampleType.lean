import XmlShape.Text.Lowercase

/-! # Types of text samples

The coarse type of a list of texts is the first rule that every one of them meets. -/

namespace XmlShape

inductive SampleType where
  | integer
  | decimal
  | date
  | boolean
  | string
deriving DecidableEq, Repr, Inhabited

namespace SampleType

def name : SampleType → String
  | integer => "integer"
  | decimal => "decimal"
  | date => "date"
  | boolean => "boolean"
  | string => "string"

def isDigits (cs : List Char) : Bool :=
  !cs.isEmpty && cs.all Char.isDigit

/-- The characters after a minus sign, if there is one. -/
def unsigned : List Char → List Char
  | '-' :: cs => cs
  | cs => cs

def isInteger (s : String) : Bool :=
  isDigits (unsigned s.toList)

/-- A dot and digits, or nothing. -/
def isFraction : List Char → Bool
  | [] => true
  | c :: cs => c == '.' && isDigits cs

def isDecimal (s : String) : Bool :=
  let cs := unsigned s.toList
  isDigits (cs.takeWhile Char.isDigit) && isFraction (cs.dropWhile Char.isDigit)

/-- What follows a calendar date `YYYY-MM-DD` at the start of the characters. -/
def afterDate? : List Char → Option (List Char)
  | y₁ :: y₂ :: y₃ :: y₄ :: '-' :: m₁ :: m₂ :: '-' :: d₁ :: d₂ :: rest =>
    if [y₁, y₂, y₃, y₄, m₁, m₂, d₁, d₂].all Char.isDigit then some rest else none
  | _ => none

/-- Any text that begins with a calendar date. -/
def isDated (s : String) : Bool :=
  (afterDate? s.toList).isSome

def isDate (s : String) : Bool :=
  (afterDate? s.toList).any List.isEmpty

def booleanWords : List String :=
  ["true", "false", "0", "1", "yes", "no"]

def isBoolean (s : String) : Bool :=
  booleanWords.contains (Text.lower s)

/-- The first of integer, decimal, date and boolean that all samples are, else string. -/
def ofSamples (samples : List String) : SampleType :=
  if samples.isEmpty then string
  else if samples.all isInteger then integer
  else if samples.all isDecimal then decimal
  else if samples.all isDated then date
  else if samples.all isBoolean then boolean
  else string

end SampleType

end XmlShape
