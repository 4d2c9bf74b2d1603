import XmlShape.Xml.Doctype

/-! # Tokens of a document -/

namespace XmlShape.Xml

inductive Token where
  | text (cs : List Char)
  | cdata (cs : List Char)
  | comment (cs : List Char)
  | instruction (target : String) (cs : List Char)
  /-- A start tag, or an empty-element tag; attribute values stand as written. -/
  | opening (name : String) (attributes : List (String × List Char)) (isEmpty : Bool)
  | closing (name : String)
  | doctype (d : DoctypeDecl)

namespace Token

/-- The attributes of a tag, whether the tag is an empty-element tag, and what follows it. `fuel` is at
least the number of characters, and `done` holds the attributes so far, last first. -/
def attributes (done : List (String × List Char)) :
    Nat → List Char → Except SyntaxError (List (String × List Char) × Bool × List Char)
  | 0, _ => .error .malformedTag
  | fuel + 1, cs =>
    match skipSpace cs with
    | '>' :: rest => .ok (done.reverse, false, rest)
    | '/' :: '>' :: rest => .ok (done.reverse, true, rest)
    | _ =>
      match attribute? cs with
      | some (a, rest) => attributes (a :: done) fuel rest
      | none => .error .malformedTag
where
  attribute? (cs : List Char) : Option ((String × List Char) × List Char) := do
    let cs ← afterSpace? cs
    let (name, cs) ← name? cs
    let cs ← afterEquals? cs
    let (value, rest) ← literal? cs
    if value.contains '<' then none else some ((name, value), rest)

def closing? (cs : List Char) : Option (Token × List Char) := do
  let (name, cs) ← name? cs
  let rest ← after? ">" (skipSpace cs)
  some (closing name, rest)

/-- The first token, and what follows it; `fuel` is at least the number of characters. -/
def next (fuel : Nat) (cs : List Char) : Except SyntaxError (Token × List Char) :=
  match cs with
  | '<' :: '!' :: '-' :: '-' :: cs => do
    let (content, rest) ← readComment cs
    pure (comment content, rest)
  | '<' :: '?' :: cs => do
    let (target, content, rest) ← readInstruction cs
    pure (instruction target content, rest)
  | '<' :: '/' :: cs =>
    match closing? cs with
    | some found => .ok found
    | none => .error .malformedTag
  | '<' :: '!' :: cs =>
    match after? "[CDATA[" cs with
    | some inner =>
      match splitAt? "]]>" inner with
      | some (content, rest) => .ok (cdata content, rest)
      | none => .error .unclosedSection
    | none =>
      match after? "DOCTYPE" cs with
      | some inner => do
        let (d, rest) ← DoctypeDecl.read inner
        pure (doctype d, rest)
      | none => .error .malformedTag
  | '<' :: cs =>
    match name? cs with
    | some (name, cs) => do
      let (attributes, isEmpty, rest) ← attributes [] fuel cs
      pure (opening name attributes isEmpty, rest)
    | none => .error .malformedTag
  | cs =>
    let (run, rest) := cs.span (· != '<')
    .ok (text run, rest)

/-- The tokens of a text; `fuel` is at least its length, and `done` holds the tokens so far, last
first. -/
def readFrom : Nat → List Token → List Char → Except SyntaxError (List Token)
  | _, done, [] => .ok done.reverse
  | 0, _, _ => .error .malformedTag
  | fuel + 1, done, cs => do
    let (token, rest) ← next (fuel + 1) cs
    readFrom fuel (token :: done) rest

def read (cs : List Char) : Except SyntaxError (List Token) :=
  readFrom cs.length [] cs

end Token

end XmlShape.Xml
