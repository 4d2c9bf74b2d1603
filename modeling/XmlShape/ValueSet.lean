/-! # Sets of texts

A set of texts is the strictly ascending list of its members, so two sets with the same members are
the same value. -/

namespace XmlShape

/-- Puts `v` into an ascending list, unless it is there. -/
def insertAscending (v : String) : List String → List String
  | [] => [v]
  | x :: xs =>
    if v < x then v :: x :: xs
    else if x < v then x :: insertAscending v xs
    else x :: xs

theorem mem_insertAscending {v x : String} {xs : List String} :
    x ∈ insertAscending v xs ↔ x = v ∨ x ∈ xs := by
  induction xs with
  | nil => simp [insertAscending]
  | cons y ys ih =>
    simp only [insertAscending]
    split
    · simp
    · split
      · simp only [List.mem_cons, ih]
        constructor <;> (rintro (h | h | h) <;> simp [h])
      · rename_i hvy hyv
        have e : v = y := String.le_antisymm (String.not_lt.mp hyv) (String.not_lt.mp hvy)
        subst e
        simp

theorem pairwise_insertAscending {v : String} {xs : List String} (h : xs.Pairwise (· < ·)) :
    (insertAscending v xs).Pairwise (· < ·) := by
  induction xs with
  | nil => simp [insertAscending]
  | cons y ys ih =>
    have hy := List.pairwise_cons.mp h
    simp only [insertAscending]
    split
    · rename_i hv
      refine List.pairwise_cons.mpr ⟨fun z hz => ?_, h⟩
      rcases List.mem_cons.mp hz with rfl | hz
      · exact hv
      · exact String.lt_trans hv (hy.1 z hz)
    · split
      · rename_i hyv
        refine List.pairwise_cons.mpr ⟨fun z hz => ?_, ih hy.2⟩
        rcases mem_insertAscending.mp hz with rfl | hz
        · exact hyv
        · exact hy.1 z hz
      · exact h

structure ValueSet where
  toList : List String
  ascending : toList.Pairwise (· < ·)

namespace ValueSet

def empty : ValueSet :=
  ⟨[], List.Pairwise.nil⟩

def size (s : ValueSet) : Nat :=
  s.toList.length

def insert (s : ValueSet) (v : String) : ValueSet :=
  ⟨insertAscending v s.toList, pairwise_insertAscending s.ascending⟩

def ofList (vs : List String) : ValueSet :=
  vs.foldl insert empty

def union (s t : ValueSet) : ValueSet :=
  t.toList.foldl insert s

instance : DecidableEq ValueSet := fun s t =>
  if h : s.toList = t.toList then
    isTrue (by cases s; cases t; cases h; rfl)
  else isFalse fun e => h (e ▸ rfl)

instance : Membership String ValueSet :=
  ⟨fun s v => v ∈ s.toList⟩

theorem mem_insert {s : ValueSet} {v x : String} : x ∈ s.insert v ↔ x = v ∨ x ∈ s :=
  mem_insertAscending

end ValueSet

end XmlShape
