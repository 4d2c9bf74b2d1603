import Mathlib.Data.List.TakeWhile
import XmlShape.Proofs.Carriers
import XmlShape.Proofs.Corpus
import XmlShape.Proofs.Markup
import XmlShape.Proofs.Printable

/-! # Schemas accept their documents

What a schema accepts is read off its markup: an element is held against a declaration, its children
against the particles of the declaration's sequence. Order among children and simple types are left
out. The schema inferred from some documents accepts each of them (`markup_accepts`). -/

namespace XmlShape

theorem Text.strip_eq_nil_iff (blank : Char → Bool) (cs : List Char) :
    Text.strip blank cs = [] ↔ ∀ c ∈ cs, blank c = true := by
  rw [Text.strip, List.reverse_eq_nil_iff, List.dropWhile_eq_nil_iff]
  simp only [List.mem_reverse]
  constructor
  · intro h c hc
    rw [← List.takeWhile_append_dropWhile (p := blank) (l := cs)] at hc
    rcases List.mem_append.mp hc with hc | hc
    · exact List.mem_takeWhile_imp hc
    · exact h c hc
  · exact fun h c hc => h c ((List.dropWhile_sublist blank).subset hc)

theorem Text.trim_eq_empty_iff {s : String} : Text.trim s = "" ↔ Text.isBlankText s = true := by
  rw [Text.trim, String.ofList_eq_empty_iff, Text.strip_eq_nil_iff, Text.isBlankText, List.all_eq_true]

namespace Schema

open Element

/-! ## Acceptance -/

def enumerated (decl : Element) : List String :=
  decl.children.flatMap fun type =>
    type.children.flatMap fun restriction => restriction.children.filterMap (attribute? · "value")

/-- Each proper attribute is declared, with its value if values are listed, and each required one is
there. -/
def AcceptsAttributes (decls : List Element) (attributes : List (String × String)) : Prop :=
  (∀ a ∈ properAttributes attributes,
    ∃ d ∈ decls, attribute? d "name" = some a.1 ∧ (d.children = [] ∨ a.2 ∈ enumerated d)) ∧
  ∀ d ∈ decls, attribute? d "use" = some "required" → ∃ a ∈ attributes, attribute? d "name" = some a.1

def AllowsOccurrences (particle : Element) (children : List Element) : Prop :=
  ∀ n, attribute? particle "name" = some n →
    (attribute? particle "minOccurs" = some "0" ∨ 1 ≤ (named n children).length) ∧
    (attribute? particle "maxOccurs" = some "unbounded" ∨ (named n children).length ≤ 1)

mutual
def Accepts (decl : Element) : Element → Prop
  | ⟨_, attributes, children, text, _⟩ =>
    match part? decl "xs:complexType" with
    | none =>
      children = [] ∧ properAttributes attributes = [] ∧ (attribute? decl "type" = none → Text.isBlankText text)
    | some type =>
      match part? type "xs:sequence" with
      | some sequence =>
        AcceptsEach sequence.children children ∧
          (∀ p ∈ sequence.children, AllowsOccurrences p children) ∧
          (attribute? type "mixed" = some "true" ∨ Text.isBlankText text) ∧
          AcceptsAttributes (named "xs:attribute" type.children) attributes
      | none =>
        match part? type "xs:simpleContent" with
        | some content =>
          children = [] ∧ AcceptsAttributes (content.children.flatMap (·.children)) attributes
        | none =>
          children = [] ∧ Text.isBlankText text ∧ AcceptsAttributes type.children attributes

def AcceptsEach (particles : List Element) : List Element → Prop
  | [] => True
  | c :: cs => (∃ p ∈ particles, attribute? p "name" = some c.name ∧ Accepts p c) ∧ AcceptsEach particles cs
end

theorem acceptsEach_iff (particles : List Element) : ∀ cs : List Element,
    AcceptsEach particles cs ↔ ∀ c ∈ cs, ∃ p ∈ particles, attribute? p "name" = some c.name ∧ Accepts p c
  | [] => by simp [AcceptsEach]
  | c :: cs => by
    rw [AcceptsEach, acceptsEach_iff particles cs, List.forall_mem_cons]

/-! ## Attributes -/

def AttributeDecl.Admits (a : AttributeDecl) (v : String) : Prop :=
  match a.type with
  | .simple _ => True
  | .oneOf values => v ∈ values

theorem admits_attributeDecl (a : AttributeDecl) (v : String) :
    (a.toElement.children = [] ∨ v ∈ enumerated a.toElement) ↔ a.Admits v := by
  obtain ⟨name, type, required⟩ := a
  cases type with
  | simple type => simp [AttributeDecl.toElement, node, AttributeDecl.Admits]
  | oneOf values =>
    simp [AttributeDecl.toElement, node, enumerated, AttributeDecl.Admits, attribute?, List.filterMap_map]

theorem acceptsAttributes_iff (as : List AttributeDecl) (attributes : List (String × String)) :
    AcceptsAttributes (as.map (·.toElement)) attributes ↔
      (∀ x ∈ properAttributes attributes, ∃ a ∈ as, a.name = x.1 ∧ a.Admits x.2) ∧
      ∀ a ∈ as, a.required = true → ∃ x ∈ attributes, a.name = x.1 := by
  simp only [AcceptsAttributes, List.mem_map, exists_exists_and_eq_and, forall_exists_index, and_imp,
    forall_apply_eq_imp_iff₂, attribute_name_attributeDecl, attribute_use_attributeDecl, admits_attributeDecl,
    Option.some.injEq]

/-! ## The shapes of a declaration -/

section
variable {name : String} {optional unbounded : Bool} {e : Element}

theorem accepts_bare :
    Accepts (ElementDecl.toElement ⟨name, optional, unbounded, .bare⟩) e ↔
      e.children = [] ∧ properAttributes e.attributes = [] ∧ Text.isBlankText e.text := by
  have ht : attribute? (ElementDecl.toElement ⟨name, optional, unbounded, .bare⟩) "type" = none := by
    rw [attribute_type_toElement]; simp
  have hp : part? (ElementDecl.toElement ⟨name, optional, unbounded, .bare⟩) "xs:complexType" = none := by
    simp [part?, ElementDecl.toElement, node, Content.toElements]
  cases e
  rw [Accepts, hp]
  simp [ht]

theorem accepts_typed {type : SimpleType} :
    Accepts (ElementDecl.toElement ⟨name, optional, unbounded, .typed type⟩) e ↔
      e.children = [] ∧ properAttributes e.attributes = [] := by
  have ht : attribute? (ElementDecl.toElement ⟨name, optional, unbounded, .typed type⟩) "type" ≠ none := by
    rw [ne_eq, attribute_type_toElement]; simp
  have hp : part? (ElementDecl.toElement ⟨name, optional, unbounded, .typed type⟩) "xs:complexType" = none := by
    simp [part?, ElementDecl.toElement, node, Content.toElements]
  cases e
  rw [Accepts, hp]
  simp [ht]

theorem accepts_attributed {as : List AttributeDecl} :
    Accepts (ElementDecl.toElement ⟨name, optional, unbounded, .attributed as⟩) e ↔
      e.children = [] ∧ Text.isBlankText e.text ∧ AcceptsAttributes (as.map (·.toElement)) e.attributes := by
  have hp : part? (ElementDecl.toElement ⟨name, optional, unbounded, .attributed as⟩) "xs:complexType" =
      some (node "complexType" [] (as.map (·.toElement))) := by
    simp [part?, ElementDecl.toElement, node, Content.toElements]
  cases e
  rw [Accepts, hp]
  simp only [part?_attributeDecls (n := "xs:sequence") (by decide),
    part?_attributeDecls (n := "xs:simpleContent") (by decide)]
  rfl

theorem accepts_extended {base : SimpleType} {as : List AttributeDecl} :
    Accepts (ElementDecl.toElement ⟨name, optional, unbounded, .extended base as⟩) e ↔
      e.children = [] ∧ AcceptsAttributes (as.map (·.toElement)) e.attributes := by
  cases e
  rw [Accepts]
  simp [part?, ElementDecl.toElement, node, Content.toElements]

theorem accepts_sequence {mixed : Bool} {ps : List ElementDecl} {as : List AttributeDecl} :
    Accepts (ElementDecl.toElement ⟨name, optional, unbounded, .sequence mixed ps as⟩) e ↔
      (∀ c ∈ e.children, ∃ p ∈ ps, p.name = c.name ∧ Accepts p.toElement c) ∧
      (∀ p ∈ ps, (p.optional = true ∨ 1 ≤ (named p.name e.children).length) ∧
        (p.unbounded = true ∨ (named p.name e.children).length ≤ 1)) ∧
      (mixed = true ∨ Text.isBlankText e.text) ∧ AcceptsAttributes (as.map (·.toElement)) e.attributes := by
  let type := node "complexType" (if mixed then [("mixed", "true")] else [])
    (node "sequence" [] (ElementDecl.toElements ps) :: as.map (·.toElement))
  have hp : part? (ElementDecl.toElement ⟨name, optional, unbounded, .sequence mixed ps as⟩) "xs:complexType" =
      some type := by
    simp [part?, ElementDecl.toElement, node, Content.toElements, type]
  have hs : part? type "xs:sequence" = some (node "sequence" [] (ps.map (·.toElement))) := by
    simp [part?, node, type, toElements_eq]
  have hm : attribute? type "mixed" = some "true" ↔ mixed = true := by
    cases mixed <;> simp [attribute?, node, type]
  have ha : named "xs:attribute" type.children = as.map (·.toElement) := by
    have : type.children = node "sequence" [] (ElementDecl.toElements ps) :: as.map (·.toElement) := rfl
    rw [this, named_cons, if_neg (by simp [node]), named_attributeDecls]
  cases e
  rw [Accepts, hp]
  simp only [hs, hm, ha, acceptsEach_iff]
  simp only [node, AllowsOccurrences, List.mem_map, exists_exists_and_eq_and, forall_exists_index, and_imp,
    forall_apply_eq_imp_iff₂, attribute_name_toElement, attribute_minOccurs_toElement,
    attribute_maxOccurs_toElement, Option.some.injEq, forall_eq']

end

/-! ## Inferred declarations -/

section
variable {es : List Element} {e : Element} (he : e ∈ es) (hd : ∀ e ∈ es, Distinct e)
include he

theorem isBlankText_of_no_texts (h : allTexts es = []) : Text.isBlankText e.text = true := by
  refine Text.trim_eq_empty_iff.mp (Classical.byContradiction fun hne => ?_)
  have : Text.trim e.text ∈ allTexts es :=
    List.mem_filter.mpr ⟨List.mem_map.mpr ⟨e, he, rfl⟩, by simpa using hne⟩
  rw [h] at this
  cases this

include hd in
/-- The attributes of every element fit the declarations tallied from all of them. -/
theorem acceptsAttributes_of_mem :
    AcceptsAttributes
      (((AttributeSummary.tally (allAttributes es)).map (AttributeDecl.ofSummary es.length)).map (·.toElement))
      e.attributes := by
  refine (acceptsAttributes_iff ..).mpr ⟨fun x hx => ?_, fun a ha hreq => ?_⟩
  · obtain ⟨a, ha, hn⟩ := AttributeSummary.exists_mem_tally he hx
    refine ⟨_, List.mem_map.mpr ⟨a, ha, rfl⟩, hn, ?_⟩
    have hv : x.2 ∈ a.values :=
      (AttributeSummary.mem_values_of_mem_tally ha).mpr ⟨e, he, hn ▸ (List.mem_filter.mp hx).1⟩
    simp only [AttributeDecl.Admits, AttributeDecl.ofSummary]
    split
    · trivial
    · rename_i values h
      split at h
      · cases h; exact hv
      · cases h
  · -- as many carriers as elements, so each of them is one
    obtain ⟨b, hb, rfl⟩ := List.mem_map.mp ha
    have hcount := AttributeSummary.count_of_mem_tally hb fun f hf => (hd f hf).attributes
    have hle : es.countP (carries b.name) ≤ es.length := List.countP_le_length
    have hall : es.countP (carries b.name) = es.length := by
      simp only [AttributeDecl.ofSummary, AttributeSummary.isRequired, decide_eq_true_eq] at hreq
      omega
    obtain ⟨v, hv⟩ := carries_iff.mp (List.countP_eq_length.mp hall e he)
    exact ⟨(b.name, v), hv, rfl⟩

theorem occurrences_of_mem (n : String) :
    ((ElementDecl.ofSummary (Summary.gatherChild es n)).optional = true ∨ 1 ≤ (named n e.children).length) ∧
      ((ElementDecl.ofSummary (Summary.gatherChild es n)).unbounded = true ∨ (named n e.children).length ≤ 1) := by
  have hmem : ((named n e.children).length : Int) ∈ childCounts n es := List.mem_map.mpr ⟨e, he, rfl⟩
  have hnonneg : ∀ c ∈ childCounts n es, 0 ≤ c := by
    intro c hc
    obtain ⟨f, -, rfl⟩ := List.mem_map.mp hc
    exact Int.natCast_nonneg _
  rw [Summary.gatherChild, Summary.gather_eq, ElementDecl.ofSummary]
  constructor
  · rcases Nat.eq_zero_or_pos (named n e.children).length with h | h
    · rw [h] at hmem
      exact Or.inl (OccurrenceRange.optional_of_mem hnonneg hmem)
    · exact Or.inr h
  · rcases Nat.lt_or_ge 1 (named n e.children).length with h | h
    · exact Or.inl (OccurrenceRange.repeatable_of_mem hmem (Int.ofNat_lt.mpr h))
    · exact Or.inr h

end

theorem children_eq_nil_of_mem {es : List Element} {e : Element} (he : e ∈ es) (h : childNames es = []) :
    e.children = [] := by
  refine List.eq_nil_iff_forall_not_mem.mpr fun c hc => ?_
  have := mem_childNames.mpr ⟨e, he, c, hc, rfl⟩
  rw [h] at this
  cases this

theorem properAttributes_eq_nil_of_mem {es : List Element} {e : Element} (he : e ∈ es)
    (h : AttributeSummary.tally (allAttributes es) = []) : properAttributes e.attributes = [] := by
  refine List.eq_nil_iff_forall_not_mem.mpr fun x hx => ?_
  obtain ⟨a, ha, -⟩ := AttributeSummary.exists_mem_tally he hx
  rw [h] at ha
  cases ha

/-- Every element is accepted by the declaration of what was gathered from it and others. -/
theorem accepts_gather {e : Element} {name : String} {counts : List Int} {es : List Element} (he : e ∈ es)
    (hd : ∀ e ∈ es, Distinct e) (hc : total counts = es.length) :
    Accepts (declaration (Summary.gather name counts es)) e := by
  have hattrs := acceptsAttributes_of_mem he hd
  have hchildren : ∀ c ∈ e.children, Accepts (declaration (Summary.gatherChild es c.name)) c := by
    intro c h
    exact accepts_gather (mem_childrenNamed.mpr ⟨e, he, h, rfl⟩) (Distinct.childrenNamed hd)
      (total_childCounts c.name es)
  rw [declaration, Summary.gather_eq, ElementDecl.ofSummary, hc, ofSummaries_eq, List.map_map]
  by_cases hk : childNames es = []
  · have hnil := children_eq_nil_of_mem he hk
    by_cases ha : AttributeSummary.tally (allAttributes es) = []
    · have hprop := properAttributes_eq_nil_of_mem he ha
      by_cases ht : allTexts es = []
      · simp only [hk, ha, ht]
        exact accepts_bare.mpr ⟨hnil, hprop, isBlankText_of_no_texts he ht⟩
      · simp only [hk, ha, List.isEmpty_eq_false_iff.mpr ht]
        exact accepts_typed.mpr ⟨hnil, hprop⟩
    · by_cases ht : allTexts es = []
      · simp only [hk, ht, List.isEmpty_eq_false_iff.mpr ha]
        exact accepts_attributed.mpr ⟨hnil, isBlankText_of_no_texts he ht, hattrs⟩
      · simp only [hk, List.isEmpty_eq_false_iff.mpr ha, List.isEmpty_eq_false_iff.mpr ht]
        exact accepts_extended.mpr ⟨hnil, hattrs⟩
  · have hks : ((childNames es).eraseDups.map (Summary.gatherChild es)).isEmpty = false := by
      obtain ⟨n, hn⟩ := List.exists_mem_of_ne_nil _ hk
      exact List.isEmpty_eq_false_iff_exists_mem.mpr
        ⟨_, List.mem_map.mpr ⟨n, List.mem_eraseDups.mpr hn, rfl⟩⟩
    simp only [hks]
    refine accepts_sequence.mpr ⟨fun c h => ?_, fun p hp => ?_, ?_, hattrs⟩
    · have hn := List.mem_eraseDups.mpr (mem_childNames.mpr ⟨e, he, c, h, rfl⟩)
      refine ⟨_, List.mem_map.mpr ⟨c.name, hn, rfl⟩, ?_, hchildren c h⟩
      rw [Function.comp, name_ofSummary, Summary.name_gatherChild]
    · obtain ⟨n, -, rfl⟩ := List.mem_map.mp hp
      rw [Function.comp, name_ofSummary, Summary.name_gatherChild]
      exact occurrences_of_mem he n
    · by_cases ht : allTexts es = []
      · exact Or.inr (isBlankText_of_no_texts he ht)
      · exact Or.inl (by rw [List.isEmpty_eq_false_iff.mpr ht]; rfl)
termination_by e.size
decreasing_by
  have := size_le_sizeAll h
  rw [size_eq e]
  omega

theorem markup_accepts {roots : List Element} (h : ∀ r ∈ roots, Distinct r) {r : Element} (hr : r ∈ roots) :
    ∃ d ∈ (markup (Summary.ofDocuments roots)).children,
      d.name = "xs:element" ∧ attribute? d "name" = some r.name ∧ Accepts d r := by
  have hn : r.name ∈ (roots.map (·.name)).eraseDups := List.mem_eraseDups.mpr (List.mem_map.mpr ⟨r, hr, rfl⟩)
  have hs : Summary.gatherRoots roots r.name ∈ Summary.ofDocuments roots := by
    rw [Summary.ofDocuments_eq]
    exact List.mem_map.mpr ⟨r.name, hn, rfl⟩
  rw [markup_children]
  refine ⟨_, List.mem_map.mpr ⟨_, hs, rfl⟩, name_toElement _, ?_, ?_⟩
  · rw [declaration, attribute_name_toElement, name_ofSummary, Summary.name_gatherRoots]
  · exact accepts_gather (mem_named.mpr ⟨hr, rfl⟩) (fun e he => h e (mem_named.mp he).1)
      (total_replicate_one _)

/-- **Acceptance.** The schema built from some documents has, for the root of each, a declaration of its
name that accepts it. Documents that XML can hold always have a schema. -/
theorem build_accepts (roots : List Element) (h : ∀ r ∈ roots, Distinct r) :
    (∀ schema, build (Summary.ofDocuments roots) = .ok schema → ∀ r ∈ roots, ∃ d ∈ schema.children,
      d.name = "xs:element" ∧ attribute? d "name" = some r.name ∧ Accepts d r) ∧
    ((∀ r ∈ roots, Representable r) → ∃ schema, build (Summary.ofDocuments roots) = .ok schema) := by
  refine ⟨fun schema hs r hr => ?_, fun hp => ?_⟩
  · unfold build at hs
    split at hs
    · cases hs; exact markup_accepts h hr
    · cases hs
  · exact ⟨_, if_pos (isPrintable_markup hp)⟩

/-- Two documents of one name, of which only the first has a child and text beside it. -/
theorem build_accepts_pair :
    ∃ schema, build (Summary.ofDocuments
        [⟨"a", [("k", "1")], [⟨"b", [], [], "x", []⟩], "y", []⟩, ⟨"a", [("k", "2")], [], "", []⟩]) = .ok schema ∧
      ∃ d ∈ schema.children, d.name = "xs:element" ∧ attribute? d "name" = some "a" ∧
        Accepts d ⟨"a", [("k", "2")], [], "", []⟩ := by
  have hd : ∀ r ∈ [(⟨"a", [("k", "1")], [⟨"b", [], [], "x", []⟩], "y", []⟩ : Element),
      ⟨"a", [("k", "2")], [], "", []⟩], Distinct r := by
    simp only [List.forall_mem_cons]
    exact ⟨.intro (by decide) (by simp [Distinct.leaf]), .leaf (by decide), by simp⟩
  have hp : ∀ r ∈ [(⟨"a", [("k", "1")], [⟨"b", [], [], "x", []⟩], "y", []⟩ : Element),
      ⟨"a", [("k", "2")], [], "", []⟩], Representable r := by
    simp only [List.forall_mem_cons]
    exact ⟨.intro (by decide) (by decide) (by simpa using .intro (by decide) (by decide) (by simp)),
      .intro (by decide) (by decide) (by simp), by simp⟩
  obtain ⟨schema, hs⟩ := (build_accepts _ hd).2 hp
  exact ⟨schema, hs, (build_accepts _ hd).1 schema hs ⟨"a", [("k", "2")], [], "", []⟩ (by simp)⟩

/-- A name with a control character has no place in a schema, so not every list of documents has one. -/
theorem not_forall_build_accepts :
    ¬ ∀ roots : List Element, (∀ r ∈ roots, Distinct r) →
      ∃ schema, build (Summary.ofDocuments roots) = .ok schema ∧ ∀ r ∈ roots, ∃ d ∈ schema.children,
        d.name = "xs:element" ∧ attribute? d "name" = some r.name ∧ Accepts d r := by
  intro h
  obtain ⟨schema, hs, -⟩ := h [⟨"a\x01", [], [], "", []⟩] (by simp [Distinct.leaf])
  have he : build (Summary.ofDocuments [⟨"a\x01", [], [], "", []⟩]) = .error .forbiddenCharacter := rfl
  rw [he] at hs
  cases hs

end Schema

end XmlShape
