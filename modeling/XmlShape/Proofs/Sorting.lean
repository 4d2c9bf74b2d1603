import Mathlib.Data.Prod.Lex
import Mathlib.Data.String.Basic
import XmlShape.Tags

/-! # The order of tags

Each way to sort compares tags by a key, and no two names have one key, however they are written in lowercase. So
the keys of sorted tags ascend strictly, there is one such list only, and the order in which the names were first
seen leaves no trace in it (`sortBy_canonical`). -/

namespace XmlShape.TagCount

/-! ## Keys -/

/-- Names compare in lowercase first, then as they are. -/
def nameKey (t : TagCount) : String ×ₗ String :=
  toLex (Text.lower t.name, t.name)

def countKey (t : TagCount) : Int ×ₗ String ×ₗ String :=
  toLex (-t.count, t.nameKey)

theorem nameLe_eq (s t : TagCount) : nameLe s t = decide (s.nameKey ≤ t.nameKey) := by
  rw [Bool.eq_iff_iff, decide_eq_true_iff, nameKey, nameKey, Prod.Lex.toLex_le_toLex]
  simp [nameLe]

theorem countLe_eq (s t : TagCount) : countLe s t = decide (s.countKey ≤ t.countKey) := by
  rw [Bool.eq_iff_iff, decide_eq_true_iff, countKey, countKey, Prod.Lex.toLex_le_toLex, countLe, nameLe_eq]
  simp

theorem name_eq_of_nameKey {s t : TagCount} (h : s.nameKey = t.nameKey) : s.name = t.name :=
  congrArg (fun k => (ofLex k).2) h

theorem name_eq_of_countKey {s t : TagCount} (h : s.countKey = t.countKey) : s.name = t.name :=
  name_eq_of_nameKey (congrArg (fun k => (ofLex k).2) h)

/-! ## Sorted by a key -/

structure Ascends {β : Type} [LinearOrder β] (key : TagCount → β) (ts sorted : List TagCount) : Prop where
  perm : sorted.Perm ts
  keys : sorted.Pairwise fun s t => key s < key t

section
variable {β : Type} [LinearOrder β] {key : TagCount → β}

/-- Entries put in another order ascend to the same list. -/
theorem Ascends.eq {ts us sorted other : List TagCount} (h : Ascends key ts sorted) (hother : Ascends key us other)
    (hperm : us.Perm ts) : other = sorted :=
  (hother.perm.trans (hperm.trans h.perm.symm)).eq_of_pairwise
    (fun _ _ _ _ hst hts => absurd hst hts.asymm) hother.keys h.keys

theorem ascends_mergeSort {le : TagCount → TagCount → Bool} (hle : ∀ s t, le s t = decide (key s ≤ key t))
    (hkey : ∀ {s t}, key s = key t → s.name = t.name) {ts : List TagCount} (hts : (ts.map (·.name)).Nodup) :
    Ascends key ts (ts.mergeSort le) := by
  have hperm := List.mergeSort_perm ts le
  have htrans : ∀ s t u, le s t = true → le t u = true → le s u = true := by
    intro s t u
    simpa only [hle, decide_eq_true_iff] using le_trans
  have htotal : ∀ s t, (le s t || le t s) = true := by
    intro s t
    simpa only [hle, Bool.or_eq_true, decide_eq_true_iff] using le_total (key s) (key t)
  have hsorted := List.pairwise_mergeSort htrans htotal ts
  have hnames : ((ts.mergeSort le).map (·.name)).Nodup := (hperm.map _).nodup_iff.mpr hts
  refine ⟨hperm, hsorted.imp₂ (fun s t hst hne => ?_) (List.pairwise_map.mp hnames)⟩
  rw [hle, decide_eq_true_iff] at hst
  exact lt_of_le_of_ne hst fun heq => hne (hkey heq)

end

/-! ## Both orders -/

theorem sortBy_count (ts : List TagCount) : sortBy "count" ts = .ok (sort .byCount ts) :=
  rfl

theorem sortBy_name (ts : List TagCount) : sortBy "name" ts = .ok (sort .byName ts) :=
  rfl

theorem sortBy_eq_error {order : String} (hcount : order ≠ "count") (hname : order ≠ "name") (ts : List TagCount) :
    sortBy order ts = .error (.unknown order) := by
  have hnone : Order.ofName? order = none := by
    unfold Order.ofName?
    split
    · exact absurd rfl hcount
    · exact absurd rfl hname
    · rfl
  rw [sortBy, Order.ofName, hnone]
  rfl

theorem ascends_byCount {ts : List TagCount} (hts : (ts.map (·.name)).Nodup) :
    Ascends countKey ts (sort .byCount ts) :=
  ascends_mergeSort countLe_eq name_eq_of_countKey hts

theorem ascends_byName {ts : List TagCount} (hts : (ts.map (·.name)).Nodup) :
    Ascends nameKey ts (sort .byName ts) :=
  ascends_mergeSort nameLe_eq name_eq_of_nameKey hts

/-- **Sorted tags are in canonical order.** Only an unknown order is refused; tags with distinct names come out with
strictly ascending keys, and in the same list however they were ordered before. -/
theorem sortBy_canonical (order : String) (ts : List TagCount) (hts : (ts.map (·.name)).Nodup) :
    (sortBy order ts = .error (.unknown order) ↔ order ≠ "count" ∧ order ≠ "name") ∧
      (order = "count" → ∃ sorted, sortBy order ts = .ok sorted ∧ Ascends countKey ts sorted) ∧
      (order = "name" → ∃ sorted, sortBy order ts = .ok sorted ∧ Ascends nameKey ts sorted) ∧
      ∀ us : List TagCount, us.Perm ts → sortBy order us = sortBy order ts := by
  refine ⟨⟨fun h => ⟨?_, ?_⟩, fun h => sortBy_eq_error h.1 h.2 ts⟩, ?_, ?_, fun us hperm => ?_⟩
  · rintro rfl
    exact nomatch (sortBy_count ts).symm.trans h
  · rintro rfl
    exact nomatch (sortBy_name ts).symm.trans h
  · rintro rfl
    exact ⟨_, sortBy_count ts, ascends_byCount hts⟩
  · rintro rfl
    exact ⟨_, sortBy_name ts, ascends_byName hts⟩
  · have hus : (us.map (·.name)).Nodup := (hperm.map _).nodup_iff.mpr hts
    by_cases hcount : order = "count"
    · rw [hcount, sortBy_count, sortBy_count, (ascends_byCount hts).eq (ascends_byCount hus) hperm]
    · by_cases hname : order = "name"
      · rw [hname, sortBy_name, sortBy_name, (ascends_byName hts).eq (ascends_byName hus) hperm]
      · rw [sortBy_eq_error hcount hname, sortBy_eq_error hcount hname]

/-- Two pairs of names that become the same in lowercase, one of them with a character more. -/
theorem sortBy_canonical_lowercase :
    let ts : List TagCount := [⟨"i\u0307", 2⟩, ⟨"b", 3⟩, ⟨"İ", 2⟩, ⟨"B", 3⟩]
    (ts.map (·.name)).Nodup ∧ Text.lower "İ" = "i\u0307" ∧ ts.reverse.Perm ts ∧
      sortBy "count" ts = .ok [⟨"B", 3⟩, ⟨"b", 3⟩, ⟨"i\u0307", 2⟩, ⟨"İ", 2⟩] ∧
      sortBy "count" ts.reverse = sortBy "count" ts ∧ sortBy "size" ts = .error (.unknown "size") := by
  intro ts
  have hts : (ts.map (·.name)).Nodup := by decide
  have hperm : ts.reverse.Perm ts := ts.reverse_perm
  obtain ⟨-, hcount, -, hsame⟩ := sortBy_canonical "count" ts hts
  obtain ⟨sorted, hsorted, hascends⟩ := hcount rfl
  -- there is one ascending list only, so it is enough that this one ascends
  have hlist : Ascends countKey ts [⟨"B", 3⟩, ⟨"b", 3⟩, ⟨"i\u0307", 2⟩, ⟨"İ", 2⟩] :=
    ⟨by decide, by decide +kernel⟩
  rw [← hascends.eq hlist (List.Perm.refl ts)] at hsorted
  exact ⟨hts, by decide +kernel, hperm, hsorted, hsame _ hperm, (sortBy_canonical "size" ts hts).1.mpr (by decide)⟩

end XmlShape.TagCount
