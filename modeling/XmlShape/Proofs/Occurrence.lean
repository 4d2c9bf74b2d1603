import XmlShape.Occurrence

/-! # Counts and their ranges

The range of a list of counts is attained by its members and bounds all of them. -/

namespace XmlShape

theorem total_append : ∀ cs ds : List Int, total (cs ++ ds) = total cs + total ds
  | [], ds => by simp [total]
  | c :: cs, ds => by
    rw [List.cons_append, total, total, total_append cs ds, Int.add_assoc]

theorem total_replicate_one : ∀ n : Nat, total (List.replicate n 1) = n
  | 0 => rfl
  | n + 1 => by
    rw [List.replicate_succ, total, total_replicate_one n]; omega

theorem total_nonneg : ∀ {cs : List Int}, (∀ n ∈ cs, 0 ≤ n) → 0 ≤ total cs
  | [], _ => Int.le_refl 0
  | c :: cs, h => by
    have hc := h c (List.mem_cons_self ..)
    have hcs := total_nonneg fun n hn => h n (List.mem_cons_of_mem c hn)
    rw [total]
    omega

theorem total_perm {cs ds : List Int} (h : cs.Perm ds) : total cs = total ds := by
  induction h with
  | nil => rfl
  | cons c _ ih => rw [total, total, ih]
  | swap c d cs => simp only [total]; omega
  | trans _ _ ih₁ ih₂ => rw [ih₁, ih₂]

namespace OccurrenceRange

theorem minimum_spec {cs : List Int} (h : cs ≠ []) :
    (ofCounts cs).minimum ∈ cs ∧ ∀ c ∈ cs, (ofCounts cs).minimum ≤ c := by
  cases cs with
  | nil => exact absurd rfl h
  | cons c cs => exact List.min?_eq_some_iff.mp List.min?_cons'

theorem maximum_spec {cs : List Int} (h : cs ≠ []) :
    (ofCounts cs).maximum ∈ cs ∧ ∀ c ∈ cs, c ≤ (ofCounts cs).maximum := by
  cases cs with
  | nil => exact absurd rfl h
  | cons c cs => exact List.max?_eq_some_iff.mp List.max?_cons'

theorem ofCounts_replicate {n : Nat} (h : n ≠ 0) (c : Int) : ofCounts (List.replicate n c) = ⟨c, c⟩ := by
  have hne : List.replicate n c ≠ [] := by simpa using h
  have hmin := List.eq_of_mem_replicate (minimum_spec hne).1
  have hmax := List.eq_of_mem_replicate (maximum_spec hne).1
  calc ofCounts (List.replicate n c)
      = ⟨(ofCounts (List.replicate n c)).minimum, (ofCounts (List.replicate n c)).maximum⟩ := rfl
    _ = ⟨c, c⟩ := by rw [hmin, hmax]

theorem ofCounts_perm {cs ds : List Int} (h : cs.Perm ds) : ofCounts cs = ofCounts ds := by
  by_cases hc : cs = []
  · subst hc
    rw [List.nil_perm.mp h]
  have hd : ds ≠ [] := fun e => hc (List.perm_nil.mp (e ▸ h))
  obtain ⟨hminc, hlec⟩ := minimum_spec hc
  obtain ⟨hmind, hled⟩ := minimum_spec hd
  obtain ⟨hmaxc, hgec⟩ := maximum_spec hc
  obtain ⟨hmaxd, hged⟩ := maximum_spec hd
  have hmin : (ofCounts cs).minimum = (ofCounts ds).minimum :=
    Int.le_antisymm (hlec _ (h.mem_iff.mpr hmind)) (hled _ (h.mem_iff.mp hminc))
  have hmax : (ofCounts cs).maximum = (ofCounts ds).maximum :=
    Int.le_antisymm (hged _ (h.mem_iff.mp hmaxc)) (hgec _ (h.mem_iff.mpr hmaxd))
  calc ofCounts cs = ⟨(ofCounts cs).minimum, (ofCounts cs).maximum⟩ := rfl
    _ = ofCounts ds := by rw [hmin, hmax]

theorem optional_of_mem {cs : List Int} (hcs : ∀ c ∈ cs, 0 ≤ c) (h : 0 ∈ cs) : (ofCounts cs).optional = true := by
  obtain ⟨hmem, hle⟩ := minimum_spec (List.ne_nil_of_mem h)
  have h0 := hle 0 h
  have h1 := hcs _ hmem
  rw [optional, beq_iff_eq]
  omega

theorem repeatable_of_mem {cs : List Int} {c : Int} (h : c ∈ cs) (hc : 1 < c) :
    (ofCounts cs).repeatable = true := by
  have hle := (maximum_spec (List.ne_nil_of_mem h)).2 c h
  rw [repeatable, decide_eq_true_eq]
  omega

end OccurrenceRange

end XmlShape
