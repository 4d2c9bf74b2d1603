import XmlShape.Proofs.Paths
import XmlShape.Schema.Basic

/-! # The order of documents

Documents taken in another order are the same elements at every path, only in another order. What is
gathered from reordered elements is the same but for the order of counts, texts and names, and all
that is inferred from it is equal (`summaryAt_perm`). -/

namespace XmlShape

theorem SampleType.ofSamples_perm {ss ts : List String} (h : ss.Perm ts) : ofSamples ss = ofSamples ts := by
  simp only [ofSamples, h.isEmpty_eq, h.all_eq]

theorem Schema.SimpleType.ofSamples_perm {ss ts : List String} (h : ss.Perm ts) :
    SimpleType.ofSamples ss = SimpleType.ofSamples ts := by
  simp only [SimpleType.ofSamples, SampleType.ofSamples_perm h, h.all_eq]

namespace AttributeSummary

theorem ofValues_perm {as bs : List (String × String)} (h : as.Perm bs) (name : String) :
    ofValues name as = ofValues name bs := by
  have hv : (valuesOf name as).Perm (valuesOf name bs) := (h.filter _).map _
  have hs : ValueSet.ofList (valuesOf name as) = ValueSet.ofList (valuesOf name bs) :=
    ValueSet.ext_mem fun v => by rw [ValueSet.mem_ofList, ValueSet.mem_ofList, hv.mem_iff]
  rw [ofValues, ofValues, hs, hv.length_eq]

theorem tally_perm {as bs : List (String × String)} (h : as.Perm bs) : (tally as).Perm (tally bs) := by
  have hp : (properAttributes as).Perm (properAttributes bs) := h.filter _
  have hnames := FirstSeen.eraseDups_perm (hp.map (·.1))
  rw [tally, tally, List.map_congr_left fun n _ => ofValues_perm hp n]
  exact hnames.map _

end AttributeSummary

namespace Element

theorem instancesAt_perm {roots others : List Element} (h : roots.Perm others) (path : List String) :
    (instancesAt roots path).Perm (instancesAt others path) := by
  rw [instancesAt, instancesAt, placesAll_eq, placesAll_eq]
  exact ((h.flatMap_right places).filter _).map _

end Element

namespace Summary

open Element

/-- Two summaries that differ only in the order of their counts, texts, attributes and children, so
that all that is inferred from them is the same. -/
structure Reordered (s t : Summary) : Prop where
  name : s.name = t.name
  counts : s.counts.Perm t.counts
  instances : s.instances = t.instances
  range : s.range = t.range
  attributes : s.attributes.Perm t.attributes
  annotations : (s.attributes.map fun a => (a.name, a.annotated s.instances)).Perm
    (t.attributes.map fun a => (a.name, a.annotated t.instances))
  uses : (s.attributes.map fun a => (a.name, a.use s.instances)).Perm
    (t.attributes.map fun a => (a.name, a.use t.instances))
  texts : s.texts.Perm t.texts
  type : s.type = t.type
  simpleType : Schema.SimpleType.ofSamples s.texts = Schema.SimpleType.ofSamples t.texts
  mixed : s.mixed = t.mixed
  children : (s.children.map (·.name)).Perm (t.children.map (·.name))

theorem reordered_gather (name : String) {cs ds : List Int} {es fs : List Element} (hc : cs.Perm ds)
    (he : es.Perm fs) : Reordered (gather name cs es) (gather name ds fs) := by
  have hattributes := AttributeSummary.tally_perm (he.flatMap_right (·.attributes))
  have htexts : (allTexts es).Perm (allTexts fs) := (he.map _).filter _
  have hinstances := total_perm hc
  rw [gather_eq, gather_eq]
  exact
    { name := rfl
      counts := hc
      instances := hinstances
      range := OccurrenceRange.ofCounts_perm hc
      attributes := hattributes
      annotations := by
        simp only [Summary.instances, hinstances]
        exact hattributes.map _
      uses := by
        simp only [Summary.instances, hinstances]
        exact hattributes.map _
      texts := htexts
      type := SampleType.ofSamples_perm htexts
      simpleType := Schema.SimpleType.ofSamples_perm htexts
      mixed := he.any_eq
      children := by
        rw [FirstSeen.map_key_family (name_gatherChild es), FirstSeen.map_key_family (name_gatherChild fs)]
        exact FirstSeen.eraseDups_perm (he.flatMap_right _) }

theorem countsAt_perm {roots others : List Element} (h : roots.Perm others) (above : List String) (name : String) :
    (countsAt roots above name).Perm (countsAt others above name) := by
  unfold countsAt
  split
  · rw [(instancesAt_perm h [name]).length_eq]
  · exact (instancesAt_perm h above).map _

/-- **The order of documents does not matter.** A corpus and any permutation of it have summaries at the
same paths, and the two at one path are the same but for order. -/
theorem summaryAt_perm {roots others : List Element} (h : roots.Perm others) (path : List String) :
    ((summaryAt (ofDocuments roots) path).isSome ↔ (summaryAt (ofDocuments others) path).isSome) ∧
    ∀ s t, summaryAt (ofDocuments roots) path = some s → summaryAt (ofDocuments others) path = some t →
      Reordered s t := by
  have hlength := (instancesAt_perm h path).length_eq
  refine ⟨?_, fun s t hs ht => ?_⟩
  · rw [isSome_summaryAt_ofDocuments, isSome_summaryAt_ofDocuments, ← List.length_pos_iff, ← List.length_pos_iff, hlength]
  · obtain ⟨above, name, rfl⟩ := exists_snoc_of_summaryAt hs
    rw [eq_gather_of_summaryAt hs, eq_gather_of_summaryAt ht]
    exact reordered_gather name (countsAt_perm h above name) (instancesAt_perm h _)

/-- Two documents that have a child of one name once and twice, with attributes on some of them. -/
theorem summaryAt_perm_pair :
    let x : Element := ⟨"r", [], [⟨"c", [("k", "2")], [], "u", []⟩], "", []⟩
    let y : Element := ⟨"r", [], [⟨"c", [("l", "")], [], "", []⟩, ⟨"c", [("k", "1")], [], "t", []⟩], "", []⟩
    [x, y].Perm [y, x] ∧ ∃ s t, summaryAt (ofDocuments [x, y]) ["r", "c"] = some s ∧
      summaryAt (ofDocuments [y, x]) ["r", "c"] = some t ∧ s.counts = [1, 2] ∧ t.counts = [2, 1] ∧
      s.texts = ["u", "t"] ∧ t.texts = ["t", "u"] ∧ Reordered s t := by
  intro x y
  have hperm : [x, y].Perm [y, x] := .swap y x []
  exact ⟨hperm, _, _, rfl, rfl, rfl, rfl, rfl, rfl, (summaryAt_perm hperm ["r", "c"]).2 _ _ rfl rfl⟩

end Summary

end XmlShape
