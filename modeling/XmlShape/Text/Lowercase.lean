import XmlShape.Text.CaseTable

/-! # Lowercase text

Full lowercase mapping: the capital I with a dot becomes two characters, and a capital sigma becomes
the final small sigma where it ends a word. -/

namespace XmlShape.Text

def inRanges (ranges : List (Nat × Nat)) (n : Nat) : Bool :=
  ranges.any fun r => r.1 ≤ n && n ≤ r.2

def isCased (c : Char) : Bool :=
  inRanges casedRanges c.toNat

def isCaseIgnorable (c : Char) : Bool :=
  inRanges caseIgnorableRanges c.toNat

def CaseRun.holds (r : CaseRun) (n : Nat) : Bool :=
  r.first ≤ n && n ≤ r.last && (n - r.first) % r.step == 0

/-- The lowercase counterpart of a character that has a single one, else the character itself. -/
def lowerChar (c : Char) : Char :=
  if c.toNat < 0x80 then c.toLower
  else
    match caseRuns.find? (·.holds c.toNat) with
    | some r => Char.ofNat (c.toNat + r.shift).toNat
    | none => c

/-- Whether the nearest character that is not case-ignorable exists and is a cased letter. -/
def facesCased (cs : List Char) : Bool :=
  match cs.dropWhile isCaseIgnorable with
  | c :: _ => isCased c
  | [] => false

/-- The small sigma for a capital one between the characters `before` (nearest first) and `after`. -/
def smallSigma (before after : List Char) : Char :=
  if facesCased before && !facesCased after then 'ς' else 'σ'

/-- Lowercases `cs`, which stands after the characters `before`, nearest first; `done` is the result so
far in reverse. -/
def lowerAfter (before done : List Char) : List Char → List Char
  | [] => done.reverse
  | c :: cs =>
    let done :=
      if c = 'Σ' then smallSigma before cs :: done
      else if c = 'İ' then '\u0307' :: 'i' :: done
      else lowerChar c :: done
    lowerAfter (c :: before) done cs

def lower (s : String) : String :=
  String.ofList (lowerAfter [] [] s.toList)

end XmlShape.Text
