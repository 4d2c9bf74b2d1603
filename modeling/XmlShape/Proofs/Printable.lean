import XmlShape.Proofs.Carriers
import XmlShape.Proofs.Corpus
import XmlShape.Proofs.Markup

/-! # Schemas that XML can hold

A schema repeats the names of its documents and some of their attribute values. Where these hold only
characters that XML allows, so does the schema (`isPrintable_markup`). -/

namespace XmlShape

def Xml.isText (s : String) : Bool :=
  s.toList.all Xml.isChar

inductive Element.Representable : Element → Prop
  | intro {e : Element} : Xml.isText e.name = true →
      (∀ a ∈ properAttributes e.attributes, Xml.isText a.1 = true ∧ Xml.isText a.2 = true) →
      (∀ c ∈ e.children, Representable c) → Representable e

theorem Element.Representable.name {e : Element} : Representable e → Xml.isText e.name = true
  | .intro h _ _ => h

theorem Element.Representable.attributes {e : Element} : Representable e →
    ∀ a ∈ properAttributes e.attributes, Xml.isText a.1 = true ∧ Xml.isText a.2 = true
  | .intro _ h _ => h

theorem Element.Representable.children {e : Element} : Representable e → ∀ c ∈ e.children, Representable c
  | .intro _ _ h => h

namespace Schema

open Element Xml

theorem arePrintable_iff : ∀ es : List Element, arePrintable es = true ↔ ∀ e ∈ es, isPrintable e = true
  | [] => by simp [arePrintable]
  | e :: es => by
    rw [arePrintable, Bool.and_eq_true, arePrintable_iff es, List.forall_mem_cons]

theorem isPrintable_iff (e : Element) :
    isPrintable e = true ↔ (∀ a ∈ e.attributes, isText a.2 = true) ∧ ∀ c ∈ e.children, isPrintable c = true := by
  cases e
  rw [isPrintable, Bool.and_eq_true, arePrintable_iff, List.all_eq_true]
  rfl

theorem isPrintable_node {name : String} {attributes : List (String × String)} {children : List Element} :
    isPrintable (node name attributes children) = true ↔
      (∀ a ∈ attributes, isText a.2 = true) ∧ ∀ c ∈ children, isPrintable c = true :=
  isPrintable_iff _

theorem isText_simpleType (t : SimpleType) : isText t.name = true := by
  cases t <;> decide

theorem isPrintable_attributeDecl {a : AttributeDecl} (hn : isText a.name = true)
    (hv : ∀ values, a.type = .oneOf values → ∀ v ∈ values, isText v = true) : isPrintable a.toElement = true := by
  obtain ⟨name, type, required⟩ := a
  have hu : isText (if required then "required" else "optional") = true := by cases required <;> decide
  cases type with
  | simple type =>
    refine isPrintable_node.mpr ⟨?_, by simp⟩
    simp only [List.forall_mem_cons]
    exact ⟨hn, isText_simpleType type, hu, by simp⟩
  | oneOf values =>
    have hvalues : ∀ v ∈ values.map fun v => node "enumeration" [("value", v)] [], isPrintable v = true := by
      intro m hm
      obtain ⟨v, hmem, rfl⟩ := List.mem_map.mp hm
      exact isPrintable_node.mpr ⟨by simpa using hv values rfl v hmem, by simp⟩
    refine isPrintable_node.mpr ⟨by simpa using ⟨hn, hu⟩, ?_⟩
    refine List.forall_mem_singleton.mpr (isPrintable_node.mpr ⟨by simp, ?_⟩)
    refine List.forall_mem_singleton.mpr (isPrintable_node.mpr ⟨?_, hvalues⟩)
    exact List.forall_mem_singleton.mpr (isText_simpleType .string)

theorem isPrintable_toElement {d : ElementDecl} (hn : isText d.name = true)
    (hc : ∀ c ∈ d.content.toElements, isPrintable c = true) : isPrintable d.toElement = true := by
  obtain ⟨name, optional, unbounded, content⟩ := d
  have ht : ∀ a ∈ content.typeAttribute, isText a.2 = true := by
    cases content <;> simp [Content.typeAttribute, isText_simpleType]
  have ho : ∀ a ∈ occurs optional unbounded, isText a.2 = true := by
    cases optional <;> cases unbounded <;> decide
  rw [ElementDecl.toElement]
  refine isPrintable_node.mpr ⟨List.forall_mem_cons.mpr ⟨hn, fun a ha => ?_⟩, hc⟩
  exact (List.mem_append.mp ha).elim (ht a) (ho a)

theorem isPrintable_tally {es : List Element} (h : ∀ e ∈ es, Representable e) (n : Int) :
    ∀ m ∈ ((AttributeSummary.tally (allAttributes es)).map (AttributeDecl.ofSummary n)).map (·.toElement),
      isPrintable m = true := by
  intro m hm
  obtain ⟨d, hd, rfl⟩ := List.mem_map.mp hm
  obtain ⟨a, ha, rfl⟩ := List.mem_map.mp hd
  have htext : ∀ e ∈ es, ∀ v, (a.name, v) ∈ e.attributes → isText a.name = true ∧ isText v = true :=
    fun e he v hv => (h e he).attributes (a.name, v)
      (List.mem_filter.mpr ⟨hv, by simp [AttributeSummary.proper_of_mem_tally ha]⟩)
  refine isPrintable_attributeDecl ?_ fun values ht v hv => ?_
  · obtain ⟨e, he, v, hv⟩ := AttributeSummary.exists_carrier_of_mem_tally ha
    exact (htext e he v hv).1
  · simp only [AttributeDecl.ofSummary] at ht
    split at ht
    · cases ht
      obtain ⟨e, he, hv⟩ := (AttributeSummary.mem_values_of_mem_tally ha).mp hv
      exact (htext e he v hv).2
    · cases ht

theorem isPrintable_gather (name : String) (counts : List Int) (es : List Element) (hn : isText name = true)
    (h : ∀ e ∈ es, Representable e) : isPrintable (declaration (Summary.gather name counts es)) = true := by
  have hattrs := isPrintable_tally h (total counts)
  have hkids : ∀ m ∈ childNames es, isPrintable (declaration (Summary.gatherChild es m)) = true := by
    intro m hm
    obtain ⟨e, he, c, hc, hcn⟩ := mem_childNames.mp hm
    refine isPrintable_gather m _ _ (hcn ▸ ((h e he).children c hc).name) fun d hd => ?_
    obtain ⟨e, he, hd, -⟩ := mem_childrenNamed.mp hd
    exact (h e he).children d hd
  rw [declaration, Summary.gather_eq, ElementDecl.ofSummary]
  refine isPrintable_toElement hn fun c hc => ?_
  split at hc
  · rw [Content.toElements, toElements_eq, ofSummaries_eq] at hc
    obtain rfl := List.mem_singleton.mp hc
    refine isPrintable_node.mpr ⟨?_, List.forall_mem_cons.mpr ⟨isPrintable_node.mpr ⟨by simp, ?_⟩, hattrs⟩⟩
    · split <;> decide
    · intro m hm
      obtain ⟨d, hd, rfl⟩ := List.mem_map.mp hm
      obtain ⟨t, ht, rfl⟩ := List.mem_map.mp hd
      obtain ⟨k, hk, rfl⟩ := List.mem_map.mp ht
      exact hkids k (List.mem_eraseDups.mp hk)
  · split at hc
    · split at hc <;> (rw [Content.toElements] at hc; cases hc)
    · split at hc
      · rw [Content.toElements] at hc
        obtain rfl := List.mem_singleton.mp hc
        exact isPrintable_node.mpr ⟨by simp, hattrs⟩
      · rw [Content.toElements] at hc
        obtain rfl := List.mem_singleton.mp hc
        refine isPrintable_node.mpr ⟨by simp, List.forall_mem_singleton.mpr (isPrintable_node.mpr ⟨by simp, ?_⟩)⟩
        refine List.forall_mem_singleton.mpr (isPrintable_node.mpr ⟨?_, hattrs⟩)
        exact List.forall_mem_singleton.mpr (isText_simpleType _)
termination_by sizeAll es
decreasing_by exact sizeAll_childrenNamed_lt hm

theorem isPrintable_markup_of {ss : List Summary} (h : ∀ s ∈ ss, isPrintable (declaration s) = true) :
    isPrintable (markup ss) = true := by
  refine (isPrintable_iff _).mpr ⟨List.forall_mem_nil _, ?_⟩
  rw [markup_children]
  exact List.forall_mem_map.mpr h

/-- Documents that XML can hold have a schema. -/
theorem isPrintable_markup {roots : List Element} (h : ∀ r ∈ roots, Representable r) :
    isPrintable (markup (Summary.ofDocuments roots)) = true := by
  rw [Summary.ofDocuments_eq]
  refine isPrintable_markup_of fun s hs => ?_
  obtain ⟨n, hn, rfl⟩ := List.mem_map.mp hs
  obtain ⟨r, hr, rfl⟩ := List.mem_map.mp (List.mem_eraseDups.mp hn)
  exact isPrintable_gather r.name _ _ (h r hr).name fun e he => h e (mem_named.mp he).1

theorem exists_render {roots : List Element} (h : ∀ r ∈ roots, Representable r) :
    ∃ text, render (Summary.ofDocuments roots) = .ok text := by
  have hprintable := isPrintable_markup h
  simp only [render, build, hprintable, if_true, Except.bind, print]
  exact ⟨_, rfl⟩

end Schema

end XmlShape
