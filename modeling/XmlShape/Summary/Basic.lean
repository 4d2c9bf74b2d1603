import XmlShape.Attribute
import XmlShape.Occurrence
import XmlShape.SampleType

/-! # Summaries

One summary stands for all elements of one name under one path. `counts` has an entry for each
parent, the number of such elements under it, so a child's list of counts is as long as its parent
has instances. Attributes and children stand in the order in which they were first seen. -/

namespace XmlShape

structure Summary where
  name : String
  counts : List Int
  mixed : Bool
  texts : List String
  attributes : List AttributeSummary
  children : List Summary
deriving Inhabited

namespace Summary

/-- The summary of a name of which nothing was seen. -/
def empty (name : String) : Summary :=
  ⟨name, [], false, [], [], []⟩

def instances (s : Summary) : Int :=
  total s.counts

def range (s : Summary) : OccurrenceRange :=
  OccurrenceRange.ofCounts s.counts

def type (s : Summary) : SampleType :=
  SampleType.ofSamples s.texts

def hasText (s : Summary) : Bool :=
  !s.texts.isEmpty

def hasChildren (s : Summary) : Bool :=
  !s.children.isEmpty

def hasAttributes (s : Summary) : Bool :=
  !s.attributes.isEmpty

def find? (ss : List Summary) (name : String) : Option Summary :=
  List.find? (fun s => s.name == name) ss

def contains (ss : List Summary) (name : String) : Bool :=
  ss.any fun s => s.name == name

def child? (s : Summary) (name : String) : Option Summary :=
  find? s.children name

def record (s : Summary) (name value : String) : Summary :=
  { s with attributes := AttributeSummary.record s.attributes name value }

/-- One absence for each of `parents` parents; none if there are not more than zero. -/
def absences (parents : Int) : List Int :=
  List.replicate parents.toNat 0

/-- The element did not occur under `parents` parents that come before the others. -/
def absentBefore (parents : Int) (s : Summary) : Summary :=
  { s with counts := absences parents ++ s.counts }

/-- The element did not occur under `parents` parents that come after the others. -/
def absentAfter (parents : Int) (s : Summary) : Summary :=
  { s with counts := s.counts ++ absences parents }

mutual
/-- The summary of the instances of both, those of the first before those of the second. -/
def absorb : Summary → Summary → Summary
  | ⟨name, counts, mixed, texts, attributes, children⟩, other =>
    ⟨name, counts ++ other.counts, mixed || other.mixed, texts ++ other.texts,
      AttributeSummary.combineAll attributes other.attributes,
      absorbEach other.instances other.children children ++
        (other.children.filter fun c => !contains children c.name).map (absentBefore (total counts))⟩

/-- Each child with its counterpart among `others`, the children of `parents` instances. -/
def absorbEach (parents : Int) (others : List Summary) : List Summary → List Summary
  | [] => []
  | c :: cs =>
    (match find? others c.name with
      | some o => c.absorb o
      | none => c.absentAfter parents) :: absorbEach parents others cs
end

mutual
def size : Summary → Int
  | ⟨_, counts, _, _, _, children⟩ => total counts + sizeAll children

def sizeAll : List Summary → Int
  | [] => 0
  | s :: ss => s.size + sizeAll ss
end

/-- What holds of a summary as soon as it holds of its children holds of all summaries. -/
theorem tree_induction {P : Summary → Prop} (step : ∀ s : Summary, (∀ c ∈ s.children, P c) → P s)
    (s : Summary) : P s :=
  step s fun c _ => tree_induction step c
termination_by sizeOf s
decreasing_by
  have := List.sizeOf_lt_of_mem ‹c ∈ s.children›
  cases s
  simp only [Summary.mk.sizeOf_spec] at *
  omega

end Summary

end XmlShape
