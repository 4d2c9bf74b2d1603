import Mathlib.Data.Set.Card
import XmlShape.Proofs.Growth

/-! # What is said of an attribute

Whether an attribute is unique, enumerated or required is decided by counting: its values, the elements
that carry it, and all elements at its path. No element is counted twice and none is lost, so the counts
decide what the elements themselves say (`annotated_iff`). -/

namespace XmlShape

theorem ValueSet.size_ofList_eq_iff {vs : List String} : (ofList vs).size = vs.length ↔ vs.Nodup := by
  constructor
  · intro h
    have hsub : (ofList vs).toList.Subperm vs := (nodup_toList _).subperm fun _ hv => mem_ofList.mp hv
    exact (hsub.perm_of_length_le (Nat.le_of_eq h.symm)).nodup_iff.mp (nodup_toList _)
  · intro h
    have hperm : (ofList vs).toList.Perm vs := (List.perm_ext_iff_of_nodup (nodup_toList _) h).mpr fun _ => mem_ofList
    exact hperm.length_eq

namespace AttributeSummary

open Element

def TellsApart (name : String) (es : List Element) : Prop :=
  2 ≤ es.length ∧ (∀ e ∈ es, carries name e = true) ∧
    es.Pairwise fun e f => ∀ v, (name, v) ∈ e.attributes → (name, v) ∉ f.attributes

def valuesTaken (name : String) (es : List Element) : Set String :=
  {v | ∃ e ∈ es, (name, v) ∈ e.attributes}

/-! ## The wording -/

section
variable {a : AttributeSummary} {elements : Int}

theorem annotated_eq_unique : a.annotated elements = a.name ++ "(unique)" ↔ a.isUnique elements = true := by
  constructor
  · intro h
    by_contra hu
    rw [annotated, if_neg hu, ← String.toList_inj] at h
    split at h <;> simp [String.append_assoc] at h
  · intro h
    rw [annotated, if_pos h]

theorem annotated_eq_enumeration :
    (∃ listed, a.annotated elements = a.name ++ "(enum:" ++ listed ++ ")") ↔
      ¬a.isUnique elements = true ∧ a.isEnumeration = true := by
  constructor
  · rintro ⟨listed, h⟩
    rw [annotated, ← String.toList_inj] at h
    split at h
    · simp [String.append_assoc] at h
    · rename_i hu
      split at h
      · rename_i he
        exact ⟨hu, he⟩
      · simp [String.append_assoc] at h
  · rintro ⟨hu, he⟩
    rw [annotated, if_neg hu, if_pos he]
    exact ⟨_, rfl⟩

theorem use_eq_required : a.use elements = "required" ↔ elements ≤ a.count := by
  by_cases h : elements ≤ a.count <;> simp [use, isRequired, h]

end

/-! ## The counting -/

/-- Where all values are different, no two elements share one; no element has two of its own. -/
theorem nodup_valuesOf_iff {name : String} {es : List Element} (hd : ∀ e ∈ es, (e.attributes.map (·.1)).Nodup) :
    (valuesOf name (allAttributes es)).Nodup ↔
      es.Pairwise fun e f => ∀ v, (name, v) ∈ e.attributes → (name, v) ∉ f.attributes := by
  have hflat : valuesOf name (allAttributes es) = es.flatMap fun e => valuesOf name e.attributes := by
    simp only [valuesOf, allAttributes, List.filter_flatMap, List.map_flatMap]
  have hown : ∀ e ∈ es, (valuesOf name e.attributes).Nodup := by
    intro e he
    have hlength : (valuesOf name e.attributes).length ≤ 1 := by
      rw [length_valuesOf]
      exact List.nodup_iff_count_le_one.mp (hd e he) name
    cases hvs : valuesOf name e.attributes with
    | nil => exact List.nodup_nil
    | cons v vs =>
      rw [hvs, List.length_cons] at hlength
      rw [List.length_eq_zero_iff.mp (Nat.le_zero.mp (Nat.le_of_succ_le_succ hlength))]
      exact List.nodup_singleton v
  rw [hflat, List.nodup_flatMap, and_iff_right hown]
  have hdisjoint : ∀ e f : Element, List.Disjoint (valuesOf name e.attributes) (valuesOf name f.attributes) ↔
      ∀ v, (name, v) ∈ e.attributes → (name, v) ∉ f.attributes := by
    intro e f
    simp only [List.Disjoint, mem_valuesOf]
  exact ⟨List.Pairwise.imp fun {e f} => (hdisjoint e f).mp, List.Pairwise.imp fun {e f} => (hdisjoint e f).mpr⟩

section
variable {es : List Element} {a : AttributeSummary} (ha : a ∈ tally (allAttributes es))
include ha

theorem mem_valuesTaken {v : String} : v ∈ valuesTaken a.name es ↔ v ∈ a.values :=
  (mem_values_of_mem_tally ha).symm

theorem ncard_valuesTaken : (valuesTaken a.name es).ncard = a.values.size := by
  have hset : valuesTaken a.name es = (a.values.toList.toFinset : Set String) := by
    ext v
    rw [mem_valuesTaken ha, Finset.mem_coe, List.mem_toFinset]
    rfl
  rw [hset, Set.ncard_coe_finset, List.toFinset_card_of_nodup a.values.nodup_toList]
  rfl

theorem isEnumeration_iff :
    a.isEnumeration = true ↔ 2 ≤ (valuesTaken a.name es).ncard ∧ (valuesTaken a.name es).ncard ≤ 10 := by
  rw [ncard_valuesTaken ha, isEnumeration, Bool.and_eq_true, decide_eq_true_eq, decide_eq_true_eq]

variable (hd : ∀ e ∈ es, (e.attributes.map (·.1)).Nodup)
include hd

theorem count_eq_length_iff : a.count = (es.length : Int) ↔ ∀ e ∈ es, carries a.name e = true := by
  rw [count_of_mem_tally ha hd, Int.ofNat_inj, List.countP_eq_length]

/-- **Counting values tells elements apart.** There are as many values as elements exactly if each element
has one and no two have the same. -/
theorem isUnique_iff : a.isUnique (es.length : Int) = true ↔ TellsApart a.name es := by
  have hproper := valuesOf_properAttributes (proper_of_mem_tally ha) (allAttributes es)
  have hvalues : a.values = ValueSet.ofList (valuesOf a.name (allAttributes es)) := by
    rw [(mem_tally ha).2, ofValues, hproper]
  have hcarriers := length_valuesOf_allAttributes a.name hd
  have hsize := ValueSet.size_ofList_le (valuesOf a.name (allAttributes es))
  have hmost : es.countP (carries a.name) ≤ es.length := List.countP_le_length
  rw [isUnique, Bool.and_eq_true, decide_eq_true_eq, beq_iff_eq, TellsApart, hvalues, ← nodup_valuesOf_iff hd,
    ← ValueSet.size_ofList_eq_iff, ← List.countP_eq_length, hcarriers]
  omega

end

end AttributeSummary

namespace Summary

open Element AttributeSummary

/-- **Verdicts on attributes.** At every path of a corpus an attribute is marked unique exactly if it tells
the elements there apart; if it does not, it is shown as an enumeration exactly if it takes from two to ten
values, which are then listed in ascending order. It is required exactly if every element carries it. -/
theorem annotated_iff (roots : List Element) (h : ∀ r ∈ roots, Distinct r) (path : List String) (s : Summary)
    (hs : summaryAt (ofDocuments roots) path = some s) (a : AttributeSummary) (ha : a ∈ s.attributes) :
    (a.annotated s.instances = a.name ++ "(unique)" ↔ TellsApart a.name (instancesAt roots path)) ∧
    (¬TellsApart a.name (instancesAt roots path) →
      ((∃ listed, a.annotated s.instances = a.name ++ "(enum:" ++ listed ++ ")") ↔
        2 ≤ (valuesTaken a.name (instancesAt roots path)).ncard ∧
          (valuesTaken a.name (instancesAt roots path)).ncard ≤ 10)) ∧
    ((∃ listed, a.annotated s.instances = a.name ++ "(enum:" ++ listed ++ ")") →
      ∃ values, a.annotated s.instances = a.name ++ "(enum:" ++ "|".intercalate values ++ ")" ∧
        values.Pairwise (· < ·) ∧ ∀ v, v ∈ values ↔ v ∈ valuesTaken a.name (instancesAt roots path)) ∧
    (a.use s.instances = "required" ↔ ∀ e ∈ instancesAt roots path, carries a.name e = true) := by
  obtain ⟨above, name, rfl⟩ := exists_snoc_of_summaryAt hs
  have hd := fun e he => (distinct_instancesAt h (above ++ [name]) e he).attributes
  have hn : s.instances = (instancesAt roots (above ++ [name])).length := by
    rw [eq_gather_of_summaryAt hs, instances_gather, total_countsAt]
  rw [eq_gather_of_summaryAt hs, gather_eq] at ha
  have hunique := isUnique_iff ha hd
  rw [hn]
  refine ⟨annotated_eq_unique.trans hunique, fun hnot => ?_, fun hlisted => ?_, ?_⟩
  · rw [annotated_eq_enumeration, hunique, isEnumeration_iff ha]
    exact and_iff_right hnot
  · obtain ⟨hu, he⟩ := annotated_eq_enumeration.mp hlisted
    refine ⟨a.values.toList, ?_, a.values.ascending, fun v => (mem_valuesTaken ha).symm⟩
    rw [annotated, if_neg hu, if_pos he]
  · rw [use_eq_required, ← count_eq_length_iff ha hd]
    have := List.countP_le_length (l := instancesAt roots (above ++ [name])) (p := carries a.name)
    rw [count_of_mem_tally ha hd]
    omega

/-- All carry `k`, each with a value of its own; two values of `l` are shared among three elements. -/
theorem annotated_iff_triple :
    let roots : List Element :=
      [⟨"r", [("k", "1"), ("l", "y")], [], "", []⟩, ⟨"r", [("k", "3"), ("l", "x")], [], "", []⟩,
        ⟨"r", [("k", "2"), ("l", "y")], [], "", []⟩]
    (∀ r ∈ roots, Distinct r) ∧
      ∃ s, summaryAt (ofDocuments roots) ["r"] = some s ∧ ∃ k ∈ s.attributes, ∃ l ∈ s.attributes,
        k.annotated s.instances = "k(unique)" ∧ l.annotated s.instances = "l(enum:x|y)" ∧
        TellsApart "k" (instancesAt roots ["r"]) ∧ ¬TellsApart "l" (instancesAt roots ["r"]) ∧
        l.use s.instances = "required" ∧ ∀ e ∈ instancesAt roots ["r"], carries "l" e = true := by
  intro roots
  have hroots : ∀ r ∈ roots, Distinct r := by
    simp only [roots, List.forall_mem_cons]
    exact ⟨.leaf (by decide), .leaf (by decide), .leaf (by decide), by simp⟩
  obtain ⟨hk, -, -, -⟩ := annotated_iff roots hroots ["r"] _ rfl _ (List.mem_cons_self ..)
  obtain ⟨hl, -, -, huse⟩ :=
    annotated_iff roots hroots ["r"] _ rfl _ (List.mem_cons_of_mem _ (List.mem_cons_self ..))
  refine ⟨hroots, _, rfl, _, List.mem_cons_self .., _, List.mem_cons_of_mem _ (List.mem_cons_self ..), rfl, rfl,
    hk.mp rfl, fun h => ?_, rfl, huse.mp rfl⟩
  exact absurd (hl.mpr h) (by decide)

end Summary

end XmlShape
