/-! # Occurrence ranges

How often an element occurs under one parent, over all parents seen. -/

namespace XmlShape

def total : List Int → Int
  | [] => 0
  | c :: cs => c + total cs

structure OccurrenceRange where
  minimum : Int
  maximum : Int

namespace OccurrenceRange

/-- The least and the greatest count; `0..0` where nothing was counted. -/
def ofCounts : List Int → OccurrenceRange
  | [] => ⟨0, 0⟩
  | c :: cs => ⟨cs.foldl min c, cs.foldl max c⟩

def optional (r : OccurrenceRange) : Bool :=
  r.minimum == 0

def repeatable (r : OccurrenceRange) : Bool :=
  r.maximum > 1

def label (r : OccurrenceRange) : String :=
  if r.minimum = r.maximum then s!"{r.minimum}" else s!"{r.minimum}..{r.maximum}"

/-- The mark behind a name in a drawing: nothing for a single occurrence or none, else `(x3)` or
`(x1..3)`. -/
def mark (r : OccurrenceRange) : String :=
  if r.minimum = r.maximum then
    if r.minimum > 1 then s!"(x{r.minimum})" else ""
  else s!"(x{r.minimum}..{r.maximum})"

end OccurrenceRange

end XmlShape
