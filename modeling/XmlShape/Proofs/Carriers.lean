import XmlShape.Proofs.Gather

/-! # Elements that carry an attribute

No element has two attributes of one name, so the number of times a name was recorded is the number
of elements that carry it. -/

namespace XmlShape

namespace Element

/-- No element of the tree has two attributes of one name. -/
inductive Distinct : Element → Prop
  | intro {e : Element} : (e.attributes.map (·.1)).Nodup → (∀ c ∈ e.children, Distinct c) → Distinct e

theorem Distinct.attributes {e : Element} : Distinct e → (e.attributes.map (·.1)).Nodup
  | .intro h _ => h

theorem Distinct.children {e : Element} : Distinct e → ∀ c ∈ e.children, Distinct c
  | .intro _ h => h

theorem Distinct.leaf {name text : String} {attributes namespaces : List (String × String)}
    (h : (attributes.map (·.1)).Nodup) : Distinct ⟨name, attributes, [], text, namespaces⟩ :=
  .intro h fun _ hc => absurd hc List.not_mem_nil

theorem Distinct.childrenNamed {name : String} {es : List Element} (h : ∀ e ∈ es, Distinct e) :
    ∀ c ∈ childrenNamed name es, Distinct c := by
  intro c hc
  obtain ⟨e, he, hc, _⟩ := mem_childrenNamed.mp hc
  exact (h e he).children c hc

def carries (name : String) (e : Element) : Bool :=
  (e.attributes.map (·.1)).contains name

theorem carries_iff {name : String} {e : Element} : carries name e = true ↔ ∃ v, (name, v) ∈ e.attributes := by
  rw [carries, List.contains_iff_mem, List.mem_map]
  constructor
  · rintro ⟨⟨n, v⟩, h, rfl⟩
    exact ⟨v, h⟩
  · rintro ⟨v, h⟩
    exact ⟨(name, v), h, rfl⟩

end Element

namespace AttributeSummary

open Element

theorem length_valuesOf (name : String) (as : List (String × String)) :
    (valuesOf name as).length = (as.map (·.1)).count name := by
  rw [valuesOf, List.length_map, List.count, List.countP_map, List.countP_eq_length_filter]
  rfl

/-- A name that declares no namespace has the same values among all attributes as among the proper
ones. -/
theorem valuesOf_properAttributes {name : String} (h : isNamespaceDeclaration name = false)
    (as : List (String × String)) : valuesOf name (properAttributes as) = valuesOf name as := by
  rw [valuesOf, properAttributes, List.filter_filter, valuesOf]
  congr 1
  refine List.filter_congr fun a _ => ?_
  by_cases ha : a.1 = name
  · simp [ha, h]
  · simp [ha]

theorem length_valuesOf_allAttributes (name : String) : ∀ {es : List Element},
    (∀ e ∈ es, (e.attributes.map (·.1)).Nodup) →
    (valuesOf name (allAttributes es)).length = es.countP (carries name)
  | [], _ => rfl
  | e :: es, h => by
    have ih := length_valuesOf_allAttributes name fun f hf => h f (List.mem_cons_of_mem _ hf)
    have he : (e.attributes.map (·.1)).count name = if carries name e then 1 else 0 := by
      rw [(h e (List.mem_cons_self ..)).count]
      simp only [carries, List.contains_iff_mem]
    have hs : allAttributes (e :: es) = e.attributes ++ allAttributes es := rfl
    rw [hs, valuesOf_append, List.length_append, length_valuesOf, he, ih, List.countP_cons, Nat.add_comm]

section
variable {es : List Element} {a : AttributeSummary} (ha : a ∈ tally (allAttributes es))
include ha

theorem proper_of_mem_tally : isNamespaceDeclaration a.name = false := by
  obtain ⟨x, hx, hn⟩ := List.mem_map.mp (mem_tally ha).1
  have := (List.mem_filter.mp hx).2
  rw [← hn]; simpa using this

theorem exists_carrier_of_mem_tally : ∃ e ∈ es, ∃ v, (a.name, v) ∈ e.attributes := by
  obtain ⟨⟨n, v⟩, hx, hn⟩ := List.mem_map.mp (mem_tally ha).1
  obtain ⟨e, he, hv⟩ := List.mem_flatMap.mp (List.mem_filter.mp hx).1
  exact ⟨e, he, v, hn ▸ hv⟩

theorem mem_values_of_mem_tally {v : String} : v ∈ a.values ↔ ∃ e ∈ es, (a.name, v) ∈ e.attributes := by
  have hp := proper_of_mem_tally ha
  rw [(mem_tally ha).2, ofValues, ValueSet.mem_ofList, valuesOf_properAttributes hp, mem_valuesOf]
  exact List.mem_flatMap

theorem count_of_mem_tally (h : ∀ e ∈ es, (e.attributes.map (·.1)).Nodup) :
    a.count = (es.countP (carries a.name) : Int) := by
  have hp := proper_of_mem_tally ha
  rw [(mem_tally ha).2, ofValues, valuesOf_properAttributes hp, length_valuesOf_allAttributes _ h]

end

theorem exists_mem_tally {es : List Element} {e : Element} {x : String × String} (he : e ∈ es)
    (hx : x ∈ properAttributes e.attributes) : ∃ a ∈ tally (allAttributes es), a.name = x.1 := by
  have hm : x.1 ∈ (tally (allAttributes es)).map (·.name) := by
    rw [map_name_tally, List.mem_eraseDups, allAttributes, properAttributes_flatMap]
    exact List.mem_map.mpr ⟨x, List.mem_flatMap.mpr ⟨e, he, hx⟩, rfl⟩
  exact List.mem_map.mp hm

end AttributeSummary

end XmlShape
