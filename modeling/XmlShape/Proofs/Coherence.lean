import XmlShape.Proofs.Carriers
import XmlShape.Proofs.Corpus
import XmlShape.Session

/-! # Coherence of summaries in a session

Whatever a session does with the summaries of documents, each of them stands for a list of elements,
so that its counts, attributes and texts fit together at every level (`coherent_of_log`). -/

namespace XmlShape

namespace Summary

open Element

/-- `Within t s`: `t` is `s` or a summary below it. -/
inductive Within (t : Summary) : Summary → Prop
  | refl : Within t t
  | child {c s : Summary} : c ∈ s.children → Within t c → Within t s

structure Coherent (s : Summary) : Prop where
  counts_nonneg : ∀ n ∈ s.counts, 0 ≤ n
  child_under_name : ∀ c ∈ s.children, s.child? c.name = some c
  /-- A child has a count for each instance of its parent. -/
  child_counts : ∀ c ∈ s.children, (c.counts.length : Int) = s.instances
  child_occurs : ∀ c ∈ s.children, 1 ≤ c.instances
  attribute_under_name : ∀ a ∈ s.attributes, AttributeSummary.find? s.attributes a.name = some a
  attribute_proper : ∀ a ∈ s.attributes, isNamespaceDeclaration a.name = false
  attribute_counts : ∀ a ∈ s.attributes,
    1 ≤ a.values.size ∧ (a.values.size : Int) ≤ a.count ∧ a.count ≤ s.instances
  texts_le : (s.texts.length : Int) ≤ s.instances
  mixed_content : s.mixed = true → s.texts ≠ [] ∧ s.children ≠ []

/-- The summary stands for a list of elements, as many as it counts. -/
def Gathered (s : Summary) : Prop :=
  ∃ name counts es, s = gather name counts es ∧ total counts = es.length ∧ (∀ n ∈ counts, 0 ≤ n) ∧
    ∀ e ∈ es, Distinct e

theorem gathered_iff {s : Summary} : Gathered s ↔ ∃ es, StandsFor s es ∧ ∀ e ∈ es, Distinct e := by
  constructor
  · rintro ⟨n, cs, es, rfl, hc, hcs, hes⟩
    exact ⟨es, standsFor_gather n hc hcs, hes⟩
  · rintro ⟨es, ⟨cs, hs, hc, hcs⟩, hes⟩
    exact ⟨s.name, cs, es, hs, hc, hcs, hes⟩

theorem gathered_empty (name : String) : Gathered (empty name) := by
  refine ⟨name, [], [], ?_, rfl, by simp, by simp⟩
  rw [gather_eq]; rfl

theorem gathered_ofDocument {root : Element} (h : Distinct root) : Gathered (ofDocument root) :=
  gathered_iff.mpr ⟨[root], standsFor_ofDocument root, List.forall_mem_singleton.mpr h⟩

theorem Gathered.absorb {s t : Summary} (hs : Gathered s) (ht : Gathered t) : Gathered (s.absorb t) := by
  obtain ⟨es, hs, hes⟩ := gathered_iff.mp hs
  obtain ⟨fs, ht, hfs⟩ := gathered_iff.mp ht
  exact gathered_iff.mpr ⟨es ++ fs, hs.absorb ht, List.forall_mem_append.mpr ⟨hes, hfs⟩⟩

theorem Gathered.merge {s t u : Summary} (hs : Gathered s) (ht : Gathered t) (h : s.merge t = .ok u) :
    Gathered u := by
  rcases merge_cases h with rfl | rfl
  · exact hs
  · exact hs.absorb ht

theorem Gathered.child {s c : Summary} (hs : Gathered s) (hc : c ∈ s.children) : Gathered c := by
  obtain ⟨es, hs, hes⟩ := gathered_iff.mp hs
  exact gathered_iff.mpr ⟨_, (hs.child hc).2, Distinct.childrenNamed hes⟩

theorem Gathered.coherent {s : Summary} (hs : Gathered s) : Coherent s := by
  obtain ⟨n, cs, es, rfl, hc, hcs, hes⟩ := hs
  have hi : (gather n cs es).instances = es.length := by rw [instances_gather, hc]
  have hch : ∀ c ∈ (gather n cs es).children, ∃ m ∈ childNames es, c = gatherChild es m := by
    intro c h
    rw [children_gather] at h
    obtain ⟨m, hm, rfl⟩ := List.mem_map.mp h
    exact ⟨m, List.mem_eraseDups.mp hm, rfl⟩
  have hat : (gather n cs es).attributes = AttributeSummary.tally (allAttributes es) := by rw [gather_eq]
  exact
    { counts_nonneg := by rw [gather_eq]; exact hcs
      child_under_name := by
        intro c h
        obtain ⟨m, hm, rfl⟩ := hch c h
        rw [child?, find?, children_gather, FirstSeen.find?_family (name_gatherChild es), name_gatherChild,
          if_pos (List.mem_eraseDups.mpr hm)]
      child_counts := by
        intro c h
        obtain ⟨m, -, rfl⟩ := hch c h
        rw [hi, gatherChild, gather_eq]
        simp [childCounts]
      child_occurs := by
        intro c h
        obtain ⟨m, hm, rfl⟩ := hch c h
        rw [gatherChild, instances_gather, total_childCounts]
        have := List.length_pos_iff.mpr fun e => childrenNamed_eq_nil.mp e hm
        omega
      attribute_under_name := by
        rw [hat]
        intro a ha
        obtain ⟨hn, ho⟩ := AttributeSummary.mem_tally ha
        rw [AttributeSummary.find?, AttributeSummary.tally, FirstSeen.find?_family (fun _ => rfl),
          if_pos (List.mem_eraseDups.mpr hn), ← ho]
      attribute_proper := by
        rw [hat]
        exact fun a ha => AttributeSummary.proper_of_mem_tally ha
      attribute_counts := by
        rw [hat, hi]
        intro a ha
        obtain ⟨hv, hvc⟩ := AttributeSummary.bounds_of_mem_tally ha
        have hcount := AttributeSummary.count_of_mem_tally ha fun e he => (hes e he).attributes
        have hle : es.countP (carries a.name) ≤ es.length := List.countP_le_length
        exact ⟨hv, hvc, by omega⟩
      texts_le := by
        rw [hi, gather_eq]
        have hle : (allTexts es).length ≤ (es.map fun e => Text.trim e.text).length := List.length_filter_le ..
        rw [List.length_map] at hle
        exact Int.ofNat_le.mpr hle
      mixed_content := by
        intro h
        rw [gather_eq] at h
        obtain ⟨e, he, hm⟩ := List.any_eq_true.mp h
        simp only [isMixed, Bool.and_eq_true, bne_iff_ne, Bool.not_eq_true', List.isEmpty_eq_false_iff] at hm
        rw [gather_eq]
        refine ⟨List.ne_nil_of_mem (a := Text.trim e.text) ?_, ?_⟩
        · exact List.mem_filter.mpr ⟨List.mem_map.mpr ⟨e, he, rfl⟩, by simpa using hm.1⟩
        · obtain ⟨c, hc⟩ := List.exists_mem_of_ne_nil _ hm.2
          have := List.mem_eraseDups.mpr (mem_childNames.mpr ⟨e, he, c, hc, rfl⟩)
          exact List.ne_nil_of_mem (List.mem_map.mpr ⟨_, this, rfl⟩) }

theorem Gathered.within {s t : Summary} (hs : Gathered s) (ht : Within t s) : Gathered t := by
  induction ht with
  | refl => exact hs
  | child hc _ ih => exact ih (hs.child hc)

end Summary

namespace Session

open Element Summary

/-- Steps that take in documents, join summaries or only look at them. -/
def Step.Derives (decoders : Xml.Decoders) : Step → Prop
  | .keep .. | .record .. => False
  | .build _ document => ∀ root, document.read decoders = .ok root → Distinct root
  | _ => True

section
variable {decoders : Xml.Decoders} {shelf : Shelf} (hs : ∀ k ∈ shelf, Gathered k.2)
include hs

theorem gathered_get (name : String) : Gathered (get shelf name) := by
  unfold get
  cases h : shelf.find? fun k => k.1 == name with
  | none => exact gathered_empty name
  | some k => exact hs k (List.mem_of_find?_eq_some h)

theorem gathered_filter (p : String × Summary → Bool) : ∀ k ∈ shelf.filter p, Gathered k.2 :=
  fun k hk => hs k (List.mem_filter.mp hk).1

theorem gathered_set (name : String) {s : Summary} (h : Gathered s) : ∀ k ∈ set shelf name s, Gathered k.2 := by
  intro k hk
  rcases List.mem_cons.mp hk with rfl | hk
  · exact h
  · exact gathered_filter hs _ k hk

/-- One step: what is kept after it still stands for elements. -/
theorem gathered_apply {step : Step} (hd : step.Derives decoders) {next : Shelf} {change : Change}
    {reply : Option Reply} (h : apply decoders shelf step = .ok (next, change, reply)) : ∀ k ∈ next, Gathered k.2 := by
  cases step with
  | keep name s => exact hd.elim
  | record name key value => exact hd.elim
  | build name document =>
    simp only [apply] at h
    cases hr : document.read decoders with
    | error e => rw [hr] at h; cases h
    | ok root =>
      rw [hr] at h
      cases h
      exact gathered_set hs name (gathered_ofDocument (hd root hr))
  | absorb name taken =>
    cases h
    exact gathered_set (gathered_filter hs _) name ((gathered_get hs name).absorb (gathered_get hs taken))
  | merge name first second =>
    simp only [apply] at h
    cases hm : (get shelf first).merge (get shelf second) with
    | error e => rw [hm] at h; cases h
    | ok s =>
      rw [hm] at h
      cases h
      exact gathered_set hs name ((gathered_get hs first).merge (gathered_get hs second) hm)
  | schema name =>
    simp only [apply] at h
    split at h
    · cases h; exact hs
    · cases h
  | compare name other => cases h; exact hs
  | draw name options => cases h; exact hs
  | outline name => cases h; exact hs
  | json name => cases h; exact hs
  | size name => cases h; exact hs
  | look name => cases h; exact hs

/-- A whole run, from any shelf that holds such summaries. -/
theorem gathered_log : ∀ steps : List Step, (∀ step ∈ steps, step.Derives decoders) →
    ∀ entry ∈ log decoders shelf steps, ∀ k ∈ entry.shelf, Gathered k.2 := by
  intro steps
  induction steps generalizing shelf with
  | nil => intro _ entry he; cases he
  | cons step steps ih =>
    intro hd entry he
    have hstep := hd step (List.mem_cons_self ..)
    have hrest : ∀ s ∈ steps, s.Derives decoders := fun s h => hd s (List.mem_cons_of_mem _ h)
    rw [log] at he
    split at he
    · rename_i next change reply ha
      have hn := gathered_apply hs hstep ha
      rcases List.mem_cons.mp he with rfl | he
      · exact hn
      · exact ih hn hrest entry he
    · rcases List.mem_cons.mp he with rfl | he
      · exact hs
      · exact ih hs hrest entry he

end

/-- **Coherence.** After every step of a session that only takes in documents and joins summaries, each
summary that is kept is coherent, and so is each summary below it. -/
theorem coherent_of_log (decoders : Xml.Decoders) (steps : List Step) (h : ∀ step ∈ steps, step.Derives decoders) :
    ∀ entry ∈ log decoders [] steps, ∀ k ∈ entry.shelf, ∀ t, Within t k.2 → t.Coherent := by
  intro entry he k hk t ht
  have hg : Gathered k.2 := gathered_log (by simp) steps h entry he k hk
  exact (hg.within ht).coherent

/-- Two documents are taken in, and the second is absorbed by the first. -/
theorem coherent_of_log_absorb :
    ((ofDocument ⟨"a", [("k", "1")], [], "t", []⟩).absorb
      (ofDocument ⟨"a", [], [⟨"b", [], [], "", []⟩], "", []⟩)).Coherent := by
  let steps : List Step :=
    [.build "x" (.tree ⟨"a", [("k", "1")], [], "t", []⟩),
      .build "y" (.tree ⟨"a", [], [⟨"b", [], [], "", []⟩], "", []⟩), .absorb "x" "y"]
  have hd : ∀ step ∈ steps, step.Derives .none := by
    simp only [steps, List.forall_mem_cons]
    refine ⟨?_, ?_, trivial, by simp⟩
    · intro root h
      cases h
      exact .leaf (by decide)
    · intro root h
      cases h
      exact .intro (by decide) (by simp [Distinct.leaf])
  have hlast : (log .none [] steps)[2]? = some ⟨.absorb "x" "y", .absorbed "x" "y", [("x", _)], none⟩ := rfl
  exact coherent_of_log .none steps hd _ (List.mem_of_getElem? hlast) _ (List.mem_singleton_self _) _ .refl

end Session

end XmlShape
