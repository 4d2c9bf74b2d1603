/-! # URI references

Whether a text has the form of a URI reference, absolute or relative. Each scanner returns the
characters after the part it passes. -/

namespace XmlShape.Xml.Uri

def isUnreserved (c : Char) : Bool :=
  c.isAlphanum || c == '-' || c == '.' || c == '_' || c == '~'

def isSubDelimiter (c : Char) : Bool :=
  "!$&'()*+,;=".toList.contains c

def isHex (c : Char) : Bool :=
  c.isDigit || ('a' ≤ c && c ≤ 'f') || ('A' ≤ c && c ≤ 'F')

/-- Passes characters that `allowed` holds of, and escaped ones. -/
def skip (allowed : Char → Bool) : List Char → List Char
  | '%' :: a :: b :: cs => if isHex a && isHex b then skip allowed cs else '%' :: a :: b :: cs
  | c :: cs => if allowed c then skip allowed cs else c :: cs
  | [] => []

def isNamePart (c : Char) : Bool :=
  isUnreserved c || isSubDelimiter c

def isSegmentPart (c : Char) : Bool :=
  isNamePart c || c == ':' || c == '@'

/-- Any number of segments, with the slashes before or between them. -/
def skipPath (cs : List Char) : List Char :=
  skip (fun c => isSegmentPart c || c == '/') cs

def octet? (cs : List Char) : Option (List Char) :=
  match cs.span Char.isDigit with
  | ([_], rest) => some rest
  | ([a, _], rest) => if a = '0' then none else some rest
  | ([a, b, c], rest) =>
    if a = '1' || (a = '2' && (b < '5' || (b = '5' && c ≤ '5'))) then some rest else none
  | _ => none

def dot? : List Char → Option (List Char)
  | '.' :: cs => some cs
  | _ => none

def address? (cs : List Char) : Option (List Char) := do
  let cs ← octet? cs
  let cs ← (dot? cs).bind octet?
  let cs ← (dot? cs).bind octet?
  (dot? cs).bind octet?

/-- A host; one that begins with four numbers is just those. -/
def host? (cs : List Char) : Option (List Char) :=
  match cs with
  | '[' :: inner =>
    match inner.dropWhile (· != ']') with
    | ']' :: rest => some rest
    | _ => none
  | cs =>
    match address? cs with
    | some rest => some rest
    | none => some (skip isNamePart cs)

/-- The greatest number that may follow the colon after a host. -/
def maxPortNumber : Nat := 2147483647

def portNumber? (cs : List Char) : Option (List Char) :=
  match cs with
  | ':' :: cs =>
    let (digits, rest) := cs.span Char.isDigit
    let n := digits.foldl (fun n c => 10 * n + (c.toNat - 48)) 0
    if digits.isEmpty || maxPortNumber < n then none else some rest
  | cs => some cs

def skipUser (cs : List Char) : List Char :=
  match skip (fun c => isNamePart c || c == ':') cs with
  | '@' :: rest => rest
  | _ => cs

def authority? (cs : List Char) : Option (List Char) := do
  let cs ← host? (skipUser cs)
  portNumber? cs

/-- Nothing, or a path that begins with a slash. -/
def skipAbsolutePath : List Char → List Char
  | '/' :: cs => skipPath cs
  | cs => cs

/-- What follows a scheme or stands in its place: an authority with a path, or a path alone. -/
def hierarchy? (cs : List Char) : Option (List Char) :=
  match cs with
  | '/' :: '/' :: cs => (authority? cs).map skipAbsolutePath
  | cs => some (skipPath cs)

def skipQuery : List Char → List Char
  | '?' :: cs => skip (fun c => isSegmentPart c || c == '/' || c == '?') cs
  | cs => cs

def skipFragment : List Char → List Char
  | '#' :: cs =>
    skip (fun c => isSegmentPart c || c == '/' || c == '?' || c == '[' || c == ']') cs
  | cs => cs

def isComplete (cs : List Char) : Bool :=
  match hierarchy? cs with
  | some rest => (skipFragment (skipQuery rest)).isEmpty
  | none => false

def afterScheme? : List Char → Option (List Char)
  | c :: cs =>
    if c.isAlpha then
      match cs.dropWhile fun c => c.isAlphanum || c == '+' || c == '-' || c == '.' with
      | ':' :: rest => some rest
      | _ => none
    else none
  | [] => none

/-- Whether the first segment of a path without a scheme holds a colon. -/
def beginsWithColonSegment (cs : List Char) : Bool :=
  match skip (fun c => isNamePart c || c == '@') cs with
  | ':' :: _ => true
  | _ => false

def isReference (cs : List Char) : Bool :=
  (match afterScheme? cs with
    | some rest => isComplete rest
    | none => false) ||
  (!beginsWithColonSegment cs && isComplete cs)

end XmlShape.Xml.Uri
