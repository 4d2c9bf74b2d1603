import XmlShape.Proofs.Doctypes
import XmlShape.Xml.Subset

/-! # Entities and default values

References are replaced by texts of the document type, and attributes left out get values from it: both are
as legible as the document itself. -/

namespace XmlShape.Xml

namespace Entities

def Legible (es : Entities) : Prop :=
  ∀ d ∈ es.declared, d.2.Legible

theorem Legible.find? {es : Entities} (h : es.Legible) {name : String} {value : EntityValue}
    (hfind : es.find? name = some value) : value.Legible := by
  simp only [Entities.find?, Option.map_eq_some_iff] at hfind
  obtain ⟨d, hd, rfl⟩ := hfind
  exact h d (List.mem_of_find?_eq_some hd)

theorem isChar_plain {c : Char} (h : isChar c = true) : isChar (plain c) = true := by
  unfold plain
  split
  · decide
  · exact h

theorem isChar_predefined {name : String} {c : Char} (h : Symbol.predefined? name = some c) : isChar c = true := by
  unfold Symbol.predefined? at h
  split at h <;> cases h <;> decide

/-- Replacing references goes to a depth, and the text of an entity is as legible as what refers to it. -/
theorem legible_expand {es : Entities} (hes : es.Legible) : ∀ {depth : Nat} {cs value : List Char},
    Xml.Legible cs → es.expand depth cs = .ok value → Xml.Legible value
  | 0, _, _, _, h => by cases h
  | depth + 1, cs, value, hcs, h => by
    unfold expand at h
    obtain ⟨symbols, hsymbols, h⟩ := Outcome.bind_eq_ok.mp h
    obtain ⟨parts, hparts, h⟩ := Outcome.bind_eq_ok.mp h
    cases h
    intro c hc
    obtain ⟨part, hpart, hc⟩ := List.mem_flatten.mp hc
    obtain ⟨s, hs, heq⟩ := Outcome.mem_of_mapM_eq_ok hparts part hpart
    have hproper := Symbol.read_proper hcs hsymbols s hs
    cases s with
    | raw d =>
      cases heq
      rw [List.mem_singleton.mp hc]
      exact isChar_plain hproper
    | numbered d =>
      cases heq
      rw [List.mem_singleton.mp hc]
      exact hproper
    | entity name =>
      simp only at heq
      split at heq
      · rename_i hpredefined
        cases heq
        rw [List.mem_singleton.mp hc]
        exact isChar_predefined hpredefined
      · split at heq
        · rename_i hfind
          split at heq
          · cases heq
          · exact legible_expand hes (hes.find? hfind) heq c hc
        · cases heq
        · split at heq
          · cases heq
            cases hc
          · cases heq

end Entities

def LegibleAttributes (attributes : List (String × String)) : Prop :=
  ∀ a ∈ attributes, IsName a.1 ∧ Legible a.2.toList

def LegibleWritten (attributes : List (String × List Char)) : Prop :=
  ∀ a ∈ attributes, IsName a.1 ∧ Legible a.2

namespace Subset

structure Legible (s : Subset) : Prop where
  entities : s.entities.Legible
  parameters : ∀ p ∈ s.parameters, p.2.Legible
  rules : ∀ r ∈ s.rules, r.Legible

theorem legible_empty : Subset.empty.Legible :=
  ⟨List.forall_mem_nil _, List.forall_mem_nil _, List.forall_mem_nil _⟩

theorem singleSpaced_subset {parted : Bool} : ∀ {cs : List Char}, singleSpaced parted cs ⊆ cs
  | [] => by simp [singleSpaced]
  | c :: cs => by
    unfold singleSpaced
    split
    · split
      · exact List.subset_cons_of_subset c singleSpaced_subset
      · exact List.cons_subset_cons c singleSpaced_subset
    · exact List.cons_subset_cons c singleSpaced_subset

theorem typedValue_subset (type : AttributeType) (cs : List Char) : typedValue type cs ⊆ cs := by
  unfold typedValue
  split
  · exact List.Subset.refl cs
  · intro c hc
    rw [tokenValue, List.mem_reverse] at hc
    exact singleSpaced_subset (List.mem_reverse.mp ((List.dropWhile_suffix _).subset hc))

section
variable {s : Subset} (hs : s.Legible)
include hs

theorem legible_addEntity {name : String} {value : EntityValue} (hvalue : value.Legible) :
    (s.addEntity name value).Legible := by
  unfold addEntity
  split
  · exact hs
  · refine ⟨?_, hs.parameters, hs.rules⟩
    exact List.forall_mem_append.mpr ⟨hs.entities, List.forall_mem_singleton.mpr hvalue⟩

theorem legible_addRule {r : AttributeRule} (hr : r.Legible) {t : Subset} (h : s.addRule r = .ok t) : t.Legible := by
  have hadd : ∀ value : Option (List Char), (∀ v, value = some v → Xml.Legible v) →
      (if (s.rule? r.element r.name).isSome then pure s
        else pure { s with rules := s.rules ++ [{ r with value }] } : Except SyntaxError Subset) = .ok t →
      t.Legible := by
    intro value hvalue h
    split at h
    · cases h
      exact hs
    · cases h
      refine ⟨hs.entities, hs.parameters, ?_⟩
      exact List.forall_mem_append.mpr ⟨hs.rules, List.forall_mem_singleton.mpr ⟨hr.name, hvalue⟩⟩
  unfold addRule at h
  simp only at h
  split at h
  · rename_i given hgiven
    obtain ⟨value, hvalue, h⟩ := Outcome.bind_eq_ok.mp h
    obtain ⟨w, hw, rfl⟩ := Outcome.map_eq_ok.mp hvalue
    refine hadd _ (fun v hv => ?_) h
    cases hv
    exact (Entities.legible_expand hs.entities (hr.value given hgiven) hw).of_subset (typedValue_subset _ _)
  · exact hadd none nofun h

theorem legible_addInclusion (standalone : Bool) : (s.addInclusion standalone).Legible :=
  ⟨hs.entities, hs.parameters, hs.rules⟩

end

theorem legible_apply {standalone : Bool} : ∀ {depth : Nat} {s t : Subset} {ms : List MarkupDecl},
    s.Legible → (∀ m ∈ ms, m.Legible) → apply standalone depth s ms = .ok t → t.Legible
  | 0, _, _, _, _, _, h => by cases h
  | depth + 1, s, t, ms, hs, hms, h => by
    unfold apply at h
    refine Outcome.foldlM_preserves (fun m hm s t hs h => ?_) hs h
    have hm := hms m hm
    cases m with
    | entity name value =>
      cases h
      exact legible_addEntity hs hm
    | parameter name value =>
      cases h
      exact ⟨hs.entities, List.forall_mem_append.mpr ⟨hs.parameters, List.forall_mem_singleton.mpr hm⟩, hs.rules⟩
    | attributes rules => exact Outcome.foldlM_preserves (fun r hr s t hs h => legible_addRule hs (hm r hr) h) hs h
    | other =>
      cases h
      exact hs
    | inclusion name =>
      simp only at h
      split at h
      · rename_i hfind
        have htext := hs.parameters _ (List.mem_of_find?_eq_some hfind)
        obtain ⟨⟨inner, rest⟩, hinner, h⟩ := Outcome.bind_eq_ok.mp h
        split at h
        · rename_i heq
          cases heq
          exact legible_apply (legible_addInclusion hs standalone) (MarkupDecl.readFrom_nil_legible htext hinner).1 h
        · cases h
      · cases h
        exact legible_addInclusion hs standalone
      · split at h
        · cases h
        · cases h
          exact legible_addInclusion hs standalone

theorem legible_ofDoctype {standalone : Bool} {d : DoctypeDecl} (hd : ∀ m ∈ d.subset, m.Legible) {s : Subset}
    (h : ofDoctype standalone d = .ok s) : s.Legible :=
  legible_apply ⟨by simp [Entities.Legible], by simp [empty], by simp [empty]⟩ hd h

theorem legible_attributes {s : Subset} (hs : s.Legible) {element : String} {written : List (String × List Char)}
    (hwritten : LegibleWritten written) {as : List (String × String)} (h : s.attributes element written = .ok as) :
    LegibleAttributes as := by
  unfold attributes at h
  obtain ⟨given, hgiven, h⟩ := Outcome.bind_eq_ok.mp h
  cases h
  refine List.forall_mem_append.mpr ⟨fun a ha => ?_, fun a ha => ?_⟩
  · obtain ⟨w, hw, heq⟩ := Outcome.mem_of_mapM_eq_ok hgiven a ha
    obtain ⟨value, hvalue, heq⟩ := Outcome.bind_eq_ok.mp heq
    cases heq
    obtain ⟨hname, htext⟩ := hwritten w hw
    refine ⟨hname, ?_⟩
    rw [String.toList_ofList]
    exact (Entities.legible_expand hs.entities htext hvalue).of_subset (typedValue_subset _ _)
  · obtain ⟨r, hr, heq⟩ := List.mem_filterMap.mp ha
    split at heq
    · simp only [Option.map_eq_some_iff] at heq
      obtain ⟨v, hv, rfl⟩ := heq
      refine ⟨(hs.rules r hr).name, ?_⟩
      rw [String.toList_ofList]
      exact (hs.rules r hr).value v hv
    · cases heq

end Subset

end XmlShape.Xml
