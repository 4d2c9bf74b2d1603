import XmlShape.Proofs.Paths

/-! # Growing corpora

More documents add elements at the end of every path, and what is gathered from more elements is more
general: ranges widen, values and counts grow, and nothing becomes required that was optional. Whatever
the earlier elements lacked is optional (`summaryAt_append`). -/

namespace XmlShape

namespace OccurrenceRange

variable {cs ds : List Int}

theorem minimum_append_le (h : cs ≠ []) : (ofCounts (cs ++ ds)).minimum ≤ (ofCounts cs).minimum :=
  (minimum_spec (List.append_ne_nil_of_left_ne_nil h ds)).2 _ (List.mem_append_left ds (minimum_spec h).1)

theorem le_maximum_append (h : cs ≠ []) : (ofCounts cs).maximum ≤ (ofCounts (cs ++ ds)).maximum :=
  (maximum_spec (List.append_ne_nil_of_left_ne_nil h ds)).2 _ (List.mem_append_left ds (maximum_spec h).1)

end OccurrenceRange

namespace AttributeSummary

open Element

theorem use_eq_optional {a : AttributeSummary} {elements : Int} : a.use elements = "optional" ↔ a.count < elements := by
  by_cases h : elements ≤ a.count
  · simp [use, isRequired, h]
  · simp [use, isRequired, h, Int.not_le.mp h]

section
variable {fs : List Element} (hfs : ∀ e ∈ fs, (e.attributes.map (·.1)).Nodup) {as : List (String × String)}
  {name : String}
include hfs

theorem count_ofValues_le (name : String) : (ofValues name (properAttributes (allAttributes fs))).count ≤ fs.length := by
  have hproper : (valuesOf name (properAttributes (allAttributes fs))).length ≤
      (valuesOf name (allAttributes fs)).length :=
    ((List.filter_sublist.filter _).map _).length_le
  have hcarries : fs.countP (carries name) ≤ fs.length := List.countP_le_length
  rw [length_valuesOf_allAttributes name hfs] at hproper
  exact Int.ofNat_le.mpr (Nat.le_trans hproper hcarries)

/-- What is known of an attribute only grows, and each further element adds at most one to its count. -/
theorem find?_tally_append {a : AttributeSummary} (ha : find? (tally as) name = some a) :
    ∃ b, find? (tally (as ++ allAttributes fs)) name = some b ∧ (∀ v ∈ a.values, v ∈ b.values) ∧
      a.count ≤ b.count ∧ b.count ≤ a.count + fs.length := by
  obtain ⟨hn, rfl⟩ := find?_tally_eq_some.mp ha
  refine ⟨_, find?_tally_eq_some.mpr ⟨?_, rfl⟩, ?_⟩
  · rw [properAttributes_append, List.map_append]
    exact List.mem_append_left _ hn
  · have hle := count_ofValues_le hfs name
    rw [properAttributes_append, ← combine_ofValues]
    exact ⟨fun v hv => ValueSet.mem_union.mpr (Or.inl hv), Int.le_add_of_nonneg_right (Int.natCast_nonneg _),
      Int.add_le_add_left hle _⟩

theorem count_le_of_new {b : AttributeSummary} (hn : find? (tally as) name = none)
    (hb : find? (tally (as ++ allAttributes fs)) name = some b) : b.count ≤ fs.length := by
  obtain ⟨-, rfl⟩ := find?_tally_eq_some.mp hb
  have hnone : valuesOf name (properAttributes as) = [] := valuesOf_eq_nil (find?_tally_eq_none.mp hn)
  rw [properAttributes_append, ofValues, valuesOf_append, hnone, List.nil_append]
  exact count_ofValues_le hfs name

end

end AttributeSummary

namespace Summary

open Element AttributeSummary

/-- Whatever `s` allows, `t` allows too. -/
structure Generalises (s t : Summary) : Prop where
  name : t.name = s.name
  minimum : t.range.minimum ≤ s.range.minimum
  maximum : s.range.maximum ≤ t.range.maximum
  instances : s.instances ≤ t.instances
  attributes : ∀ name a, AttributeSummary.find? s.attributes name = some a →
    ∃ b, AttributeSummary.find? t.attributes name = some b ∧ (∀ v ∈ a.values, v ∈ b.values) ∧
      a.count ≤ b.count ∧ (a.use s.instances = "optional" → b.use t.instances = "optional")
  newAttributes : ∀ name b, AttributeSummary.find? s.attributes name = none →
    AttributeSummary.find? t.attributes name = some b → b.use t.instances = "optional"
  hasText : s.hasText = true → t.hasText = true
  hasChildren : s.hasChildren = true → t.hasChildren = true
  mixed : s.mixed = true → t.mixed = true

theorem hasText_gather (name : String) (counts : List Int) (es : List Element) :
    (gather name counts es).hasText = true ↔ allTexts es ≠ [] := by
  rw [gather_eq]; simp [hasText]

theorem hasChildren_gather (name : String) (counts : List Int) (es : List Element) :
    (gather name counts es).hasChildren = true ↔ childNames es ≠ [] := by
  have hnames : (childNames es).eraseDups = [] ↔ childNames es = [] := by
    simp only [List.eq_nil_iff_forall_not_mem, List.mem_eraseDups]
  rw [hasChildren, children_gather, Bool.not_eq_true', List.isEmpty_eq_false_iff, ne_eq, List.map_eq_nil_iff, hnames]

theorem generalises_gather (name : String) {cs ds : List Int} {es fs : List Element} (hc : total cs = es.length)
    (hd : total ds = fs.length) (hes : es ≠ []) (hfs : ∀ e ∈ fs, (e.attributes.map (·.1)).Nodup) :
    Generalises (gather name cs es) (gather name (cs ++ ds) (es ++ fs)) := by
  have hlength : 0 < es.length := List.length_pos_iff.mpr hes
  have hcs : cs ≠ [] := by
    rintro rfl
    rw [total] at hc
    omega
  have hs : (gather name cs es).instances = es.length := by rw [instances_gather, hc]
  have ht : (gather name (cs ++ ds) (es ++ fs)).instances = es.length + fs.length := by
    rw [instances_gather, total_append, hc, hd]
  have hsa : (gather name cs es).attributes = tally (allAttributes es) := by rw [gather_eq]
  have hta : (gather name (cs ++ ds) (es ++ fs)).attributes = tally (allAttributes es ++ allAttributes fs) := by
    rw [gather_eq, allAttributes_append]
  exact
    { name := by rw [name_gather, name_gather]
      minimum := by
        rw [gather_eq, gather_eq]
        exact OccurrenceRange.minimum_append_le hcs
      maximum := by
        rw [gather_eq, gather_eq]
        exact OccurrenceRange.le_maximum_append hcs
      instances := by omega
      attributes := by
        rw [hsa, hta, hs, ht]
        intro n a ha
        -- the new elements that lack it stay ahead of those that carry it
        obtain ⟨b, hb, hvalues, hle, hle'⟩ := find?_tally_append hfs ha
        refine ⟨b, hb, hvalues, hle, ?_⟩
        rw [use_eq_optional, use_eq_optional]
        omega
      newAttributes := by
        rw [hsa, hta, ht]
        intro n b hn hb
        have := count_le_of_new hfs hn hb
        rw [use_eq_optional]
        omega
      hasText := by
        rw [hasText_gather, hasText_gather, allTexts_append]
        exact fun h => List.append_ne_nil_of_left_ne_nil h _
      hasChildren := by
        rw [hasChildren_gather, hasChildren_gather, childNames_append]
        exact fun h => List.append_ne_nil_of_left_ne_nil h _
      mixed := by
        rw [gather_eq, gather_eq, List.any_append]
        intro h
        exact Bool.or_eq_true_iff.mpr (Or.inl h) }

theorem zero_mem_countsAt {roots : List Element} {above : List String} {name : String}
    (habove : instancesAt roots above ≠ []) (hname : instancesAt roots (above ++ [name]) = []) :
    0 ∈ countsAt roots above name := by
  cases above with
  | nil => exact absurd (instancesAt_nil roots) habove
  | cons n path =>
    rw [instancesAt_snoc] at hname
    -- every element above counts none
    have hcounts : countsAt roots (n :: path) name = List.replicate (instancesAt roots (n :: path)).length 0 :=
      childCounts_of_absent (childrenNamed_eq_nil.mp hname)
    rw [hcounts]
    exact List.mem_replicate.mpr ⟨fun e => habove (List.eq_nil_of_length_eq_zero e), rfl⟩

/-- **More documents only generalise.** Every summary of a corpus is generalised by the one that stands at
its path when documents are added. A child that an element of the corpus gets only then is optional. -/
theorem summaryAt_append (roots others : List Element) (h : ∀ r ∈ others, Distinct r) :
    (∀ path s, summaryAt (ofDocuments roots) path = some s →
      ∃ t, summaryAt (ofDocuments (roots ++ others)) path = some t ∧ Generalises s t) ∧
    ∀ above name t, (summaryAt (ofDocuments roots) above).isSome →
      summaryAt (ofDocuments roots) (above ++ [name]) = none →
      summaryAt (ofDocuments (roots ++ others)) (above ++ [name]) = some t →
      t.range.minimum = 0 ∧ t.range.optional = true := by
  refine ⟨fun path s hs => ?_, fun above name t habove hname ht => ?_⟩
  · obtain ⟨above, name, rfl⟩ := exists_snoc_of_summaryAt hs
    have hi := (isSome_summaryAt_ofDocuments roots _).mp (Option.isSome_of_mem hs)
    have hall : instancesAt (roots ++ others) (above ++ [name]) ≠ [] := by
      rw [instancesAt_append]
      exact List.append_ne_nil_of_left_ne_nil hi _
    obtain ⟨t, ht⟩ := Option.isSome_iff_exists.mp ((isSome_summaryAt_ofDocuments (roots ++ others) _).mpr hall)
    refine ⟨t, ht, ?_⟩
    rw [eq_gather_of_summaryAt hs, eq_gather_of_summaryAt ht, countsAt_append, instancesAt_append]
    exact generalises_gather name (total_countsAt roots above name) (total_countsAt others above name) hi
      fun e he => (distinct_instancesAt h _ e he).attributes
  · have habove := (isSome_summaryAt_ofDocuments roots above).mp habove
    have hmissing : instancesAt roots (above ++ [name]) = [] := by
      by_contra hi
      have := (isSome_summaryAt_ofDocuments roots _).mpr hi
      rw [hname] at this
      cases this
    have hzero : 0 ∈ countsAt (roots ++ others) above name := by
      rw [countsAt_append]
      exact List.mem_append_left _ (zero_mem_countsAt habove hmissing)
    have hrange : t.range = OccurrenceRange.ofCounts (countsAt (roots ++ others) above name) := by
      rw [eq_gather_of_summaryAt ht, gather_eq]; rfl
    have hoptional := OccurrenceRange.optional_of_mem (nonneg_countsAt (roots ++ others) above name) hzero
    rw [hrange]
    exact ⟨eq_of_beq hoptional, hoptional⟩

/-- The second document has a child and an attribute that the first one lacks. -/
theorem summaryAt_append_pair :
    let x : Element := ⟨"r", [("k", "1")], [], "t", []⟩
    let y : Element := ⟨"r", [("l", "2")], [⟨"c", [], [], "", []⟩], "", []⟩
    (∀ r ∈ [y], Distinct r) ∧
      (∃ s t, summaryAt (ofDocuments [x]) ["r"] = some s ∧ summaryAt (ofDocuments ([x] ++ [y])) ["r"] = some t ∧
        t.attributes.map (·.name) = ["k", "l"] ∧ Generalises s t) ∧
      ∃ t, summaryAt (ofDocuments ([x] ++ [y])) ["r", "c"] = some t ∧ t.counts = [0, 1] ∧
        t.range.minimum = 0 ∧ t.range.optional = true := by
  intro x y
  have hdistinct : ∀ r ∈ [y], Distinct r := by
    simp only [List.forall_mem_cons]
    exact ⟨.intro (by decide) (by simp [Distinct.leaf, y]), by simp⟩
  obtain ⟨hold, hnew⟩ := summaryAt_append [x] [y] hdistinct
  obtain ⟨t, ht, hst⟩ := hold ["r"] _ rfl
  exact ⟨hdistinct, ⟨_, t, rfl, ht, Option.some.inj ht ▸ rfl, hst⟩, _, rfl, rfl, hnew ["r"] "c" _ rfl rfl rfl⟩

end Summary

end XmlShape
