import XmlShape.Xml.Scan

/-! # Content models

The part of an element type declaration that says what the element may hold. Only its form matters
here. -/

namespace XmlShape.Xml.ContentModel

def afterRepetition : List Char → List Char
  | '?' :: cs => cs
  | '*' :: cs => cs
  | '+' :: cs => cs
  | cs => cs

mutual
/-- A name or a group, with its repetition mark; `fuel` bounds the number of parts. -/
def particle? : Nat → List Char → Option (List Char)
  | 0, _ => none
  | fuel + 1, '(' :: cs => do
    let cs ← particle? fuel (skipSpace cs)
    let cs ← group? none fuel (skipSpace cs)
    some (afterRepetition cs)
  | _ + 1, cs => do
    let (_, cs) ← name? cs
    some (afterRepetition cs)

/-- The rest of a group after one of its particles. All particles of a group are parted by the same
character, `separator` if one was seen already. -/
def group? (separator : Option Char) : Nat → List Char → Option (List Char)
  | 0, _ => none
  | fuel + 1, cs =>
    match cs with
    | ')' :: rest => some rest
    | c :: rest =>
      if (c = ',' || c = '|') && (separator.isNone || separator = some c) then do
        let cs ← particle? fuel (skipSpace rest)
        group? (some c) fuel (skipSpace cs)
      else none
    | [] => none
end

/-- The rest of a group that begins with character data, after that beginning; `named` says whether a
name was seen already. -/
def mixed? (named : Bool) : Nat → List Char → Option (List Char)
  | 0, _ => none
  | fuel + 1, cs =>
    match skipSpace cs with
    | ')' :: '*' :: rest => some rest
    | ')' :: rest => if named then none else some rest
    | '|' :: rest => do
      let (_, cs) ← name? (skipSpace rest)
      mixed? true fuel cs
    | _ => none

def after? (cs : List Char) : Option (List Char) :=
  match Xml.after? "EMPTY" cs with
  | some rest => some rest
  | none =>
    match Xml.after? "ANY" cs with
    | some rest => some rest
    | none =>
      match cs with
      | '(' :: inner =>
        match Xml.after? "#PCDATA" (skipSpace inner) with
        | some rest => mixed? false (cs.length + 1) rest
        | none => particle? (2 * cs.length + 1) cs
      | _ => none

end XmlShape.Xml.ContentModel
