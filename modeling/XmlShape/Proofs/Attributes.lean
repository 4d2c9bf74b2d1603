import XmlShape.Proofs.Paths
import XmlShape.Proofs.StartTags

/-! # No attribute is lost

An attribute may get another prefix of its namespace, and what an element keeps of its attributes is one value for
each name. No two of them meet under one name, and none gets the name of a namespace declaration, so that
each is an attribute of the element and reaches the summary of its place (`attributesKept_of_read`). -/

namespace XmlShape.Xml

/-! ## The attributes of one tag -/

/-- Attributes put one by one into a table: of those with one name it has the last value, at the place of the
first. -/
def stored (attributes : List (String × String)) : List (String × String) :=
  attributes.foldl (fun kept a => FirstSeen.update (·.1) a.1 (fun _ => a) a kept) []

theorem stored_eq_self {attributes : List (String × String)} (h : (attributes.map (·.1)).Nodup) :
    stored attributes = attributes :=
  FirstSeen.foldl_update_eq_append h

/-- What has become of an attribute: its value and what its name stands for are the same, and there is a prefix
exactly if it is in a namespace. -/
structure Continues (scope : Scope) (written found : String × String) : Prop where
  value : found.2 = written.2
  meaning : scope.meaning found.1 = scope.meaning written.1
  namespaced : (scope.meaning written.1).1.isSome ↔ (Scope.splitName found.1).1 ≠ ""

/-- What an element has of the attributes of its tag: each that declares no namespace has become one entry, in
their order. -/
structure Keeps (scope : Scope) (written found : List (String × String)) : Prop where
  stored : stored ((properAttributes written).map fun a => (scope.attributeName a.1, a.2)) = found
  attributes : List.Forall₂ (Continues scope) (properAttributes written) found
  apart : ∀ a ∈ properAttributes written, ∀ b ∈ properAttributes written,
    scope.meaning a.1 ≠ scope.meaning b.1 → scope.attributeName a.1 ≠ scope.attributeName b.1
  distinct : (found.map (·.1)).Nodup
  proper : properAttributes found = found

theorem Scope.Follows.nodup_meanings {outer inner : Scope} {name : String} {attributes : List (String × String)}
    (h : Follows outer name attributes inner) :
    ((properAttributes attributes).map fun a => inner.meaning a.1).Nodup := by
  refine List.Nodup.of_map (fun m => m.1.elim m.2 fun uri => uri ++ " " ++ m.2) ?_
  have hexpanded : ∀ a ∈ properAttributes attributes, inner.expandedName a.1 =
      (inner.meaning a.1).1.elim (inner.meaning a.1).2 fun uri => uri ++ " " ++ (inner.meaning a.1).2 := fun a ha =>
    Scope.expandedName_eq_elim (h.bound a.1 (List.mem_cons_of_mem _ (List.mem_map_of_mem ha)))
  rw [List.map_map]
  exact List.map_congr_left hexpanded ▸ h.unlike

theorem Scope.Follows.keeps {outer inner : Scope} {name : String} {attributes : List (String × String)}
    (houter : outer.Wellformed) (h : Follows outer name attributes inner) :
    Keeps inner attributes ((properAttributes attributes).map fun a => (inner.attributeName a.1, a.2)) := by
  have hinner := h.wellformed houter
  have hrenames : ∀ a ∈ properAttributes attributes, inner.Renames a.1 (inner.attributeName a.1) := fun a ha =>
    hinner.renames_attributeName
      (h.qualified a.1 (List.mem_cons_of_mem _ (List.mem_map_of_mem (List.mem_filter.mp ha).1)))
      (h.bound a.1 (List.mem_cons_of_mem _ (List.mem_map_of_mem ha)))
  -- names of different meanings stay different, and those of the tag are of different meanings
  have hdistinct : (((properAttributes attributes).map fun a => (inner.attributeName a.1, a.2)).map (·.1)).Nodup := by
    refine List.Nodup.of_map inner.meaning ?_
    rw [List.map_map, List.map_map]
    exact List.map_congr_left (fun a ha => ((hrenames a ha).meaning).symm) ▸ h.nodup_meanings
  refine
    { stored := stored_eq_self hdistinct
      attributes := ?_
      apart := fun a ha b hb hne heq => hne ?_
      distinct := hdistinct
      proper := ?_ }
  · rw [List.forall₂_map_right_iff, List.forall₂_same]
    intro a ha
    exact ⟨rfl, (hrenames a ha).meaning, (hrenames a ha).isSome_namespace⟩
  · rw [← (hrenames a ha).meaning, heq, (hrenames b hb).meaning]
  · refine List.filter_eq_self.mpr (List.forall_mem_map.mpr fun a ha => ?_)
    have hname : isNamespaceDeclaration a.1 = false := by
      simpa using (List.mem_filter.mp ha).2
    rw [(hrenames a ha).proper hinner hname]
    rfl

/-! ## The attributes of a document -/

mutual
def Node.attributeLists (outer : Scope) : Node → List (Scope × List (String × String))
  | .element _ attributes content =>
    let inner := outer.extend (Scope.declarations attributes)
    (inner, attributes) :: Node.attributeListsAll inner content
  | _ => []

def Node.attributeListsAll (outer : Scope) : List Node → List (Scope × List (String × String))
  | [] => []
  | n :: ns => n.attributeLists outer ++ Node.attributeListsAll outer ns
end

mutual
theorem Node.keeps_attributeLists {outer : Scope} (houter : outer.Wellformed) : ∀ {n : Node},
    n.checkNames outer = .ok () →
    List.Forall₂ (fun w p => Keeps w.1 w.2 p.2.attributes) (n.attributeLists outer)
      (Element.placesAll (n.element? outer).toList)
  | .element name attributes content, h => by
    rw [checkNames] at h
    obtain ⟨inner, htag, hcontent⟩ := Outcome.bind_eq_ok.mp h
    have hfollows := Scope.checkTag_eq_ok.mp htag
    have hkeeps := hfollows.keeps houter
    have hinner := hfollows.wellformed houter
    obtain rfl := hfollows.scope
    rw [attributeLists, element?, Option.toList_some, Element.placesAll, Element.placesAll, List.append_nil,
      Element.places]
    refine .cons hkeeps ?_
    rw [List.forall₂_map_right_iff]
    exact Node.keeps_attributeListsAll hinner hcontent
  | .text _, _ => .nil
  | .comment _, _ => .nil
  | .instruction _ _, _ => .nil
  | .entity _, _ => .nil

theorem Node.keeps_attributeListsAll {outer : Scope} (houter : outer.Wellformed) : ∀ {ns : List Node},
    Node.checkNamesAll outer ns = .ok () →
    List.Forall₂ (fun w p => Keeps w.1 w.2 p.2.attributes) (Node.attributeListsAll outer ns)
      (Element.placesAll (Node.elements outer ns))
  | [], _ => .nil
  | n :: ns, h => by
    rw [checkNamesAll] at h
    obtain ⟨hn, hns⟩ := Outcome.check_bind_eq_ok.mp h
    rw [attributeListsAll, elements, Element.placesAll_append]
    exact List.rel_append (Node.keeps_attributeLists houter hn) (Node.keeps_attributeListsAll houter hns)
end

/-! ## Into the summaries -/

/-- The proper attributes of an element in a corpus are in the summary of its place, each with its value. -/
theorem recorded_of_mem_places {roots : List Element} {e x : Element} {path : List String} (he : e ∈ roots)
    (hx : (path, x) ∈ e.places) :
    ∃ s, Summary.summaryAt (Summary.ofDocuments roots) path = some s ∧
      ∀ a ∈ properAttributes x.attributes, ∃ y ∈ s.attributes, y.name = a.1 ∧ a.2 ∈ y.values := by
  have hmem : x ∈ Element.instancesAt roots path := by
    rw [Element.mem_instancesAt, Element.placesAll_eq]
    exact List.mem_flatMap.mpr ⟨e, he, hx⟩
  obtain ⟨s, hs⟩ := Option.isSome_iff_exists.mp
    ((Summary.isSome_summaryAt_ofDocuments roots path).mpr (List.ne_nil_of_mem hmem))
  obtain ⟨above, name, rfl⟩ := Summary.exists_snoc_of_summaryAt hs
  refine ⟨s, hs, fun a ha => ?_⟩
  rw [Summary.eq_gather_of_summaryAt hs, Summary.gather_eq]
  obtain ⟨y, hy, hname⟩ := AttributeSummary.exists_mem_tally hmem ha
  refine ⟨y, hy, hname, (AttributeSummary.mem_values_of_mem_tally hy).mpr ⟨x, hmem, ?_⟩⟩
  rw [hname]
  exact (List.mem_filter.mp ha).1

/-! ## Documents -/

/-- The elements of the tree that was read have the attributes of its tags, and wherever the document is in a corpus
they are in the summaries of its places. -/
def AttributesKept (cs : List Char) (e : Element) : Prop :=
  (∃ s root, readTree cs = .ok (s, root) ∧
    List.Forall₂ (fun w p => Keeps w.1 w.2 p.2.attributes) (root.attributeLists []) e.places) ∧
  ∀ roots : List Element, e ∈ roots → ∀ p ∈ e.places,
    ∃ s, Summary.summaryAt (Summary.ofDocuments roots) p.1 = some s ∧
      ∀ a ∈ p.2.attributes, ∃ y ∈ s.attributes, y.name = a.1 ∧ a.2 ∈ y.values

theorem attributesKept_of_readRoot {cs : List Char} {e : Element} (h : readRoot cs = .ok e) : AttributesKept cs e := by
  obtain ⟨s, root, htree, helement⟩ := exists_tree_of_readRoot h
  obtain ⟨_, _, _, _, -, -, -, -, hcheck⟩ := exists_stages_of_readTree htree
  have hkeeps : List.Forall₂ (fun w p => Keeps w.1 w.2 p.2.attributes) (root.attributeLists []) e.places := by
    have hroot := Node.keeps_attributeLists Scope.wellformed_nil (Outcome.check_bind_eq_ok.mp hcheck).1
    simpa [helement, Element.placesAll] using hroot
  have hproper : ∀ p ∈ e.places, properAttributes p.2.attributes = p.2.attributes := by
    have hboth : List.Forall₂ (fun p w => properAttributes p.2.attributes = p.2.attributes ∧
        Keeps w.1 w.2 p.2.attributes) e.places (root.attributeLists []) :=
      hkeeps.flip.imp fun _ _ hkept => ⟨hkept.proper, hkept⟩
    exact ((List.forall₂_and_left _ _).mp hboth).1
  refine ⟨⟨s, root, htree, hkeeps⟩, fun roots he p hp => ?_⟩
  obtain ⟨t, ht, hrecorded⟩ := recorded_of_mem_places he hp
  exact ⟨t, ht, hproper p hp ▸ hrecorded⟩

/-- **No attribute is lost**, neither in the element that a tag becomes nor in the summaries of a corpus. -/
theorem attributesKept_of_read (e : Element) :
    (∀ s, readText s = .ok e → AttributesKept (withoutMark s.toList) e) ∧
      (∀ decoders bytes, readBytes decoders bytes = .ok e →
        ∃ cs, Encoding.decode decoders bytes = .ok cs ∧ AttributesKept cs e) := by
  constructor
  · intro s h
    exact attributesKept_of_readRoot (readRoot_of_readText h)
  · intro decoders bytes h
    obtain ⟨cs, hcs, hroot⟩ := readRoot_of_readBytes h
    exact ⟨cs, hcs, attributesKept_of_readRoot hroot⟩

def shadowed : String :=
  "<r xmlns:a=\"u\" xmlns:b=\"u\" a:i=\"1\" i=\"2\"><c xmlns:b=\"v\" a:i=\"3\" b:i=\"4\" xml:lang=\"en\"/></r>"

theorem attributesKept_of_read_shadowed :
    ∃ e, readText shadowed = .ok e ∧
      e.places.map (·.2.attributes) =
        [[("b:i", "1"), ("i", "2")], [("a:i", "3"), ("b:i", "4"), ("xml:lang", "en")]] ∧
      AttributesKept (withoutMark shadowed.toList) e := by
  have hread : (readText shadowed).map (fun e => e.places.map (·.2.attributes)) =
      .ok [[("b:i", "1"), ("i", "2")], [("a:i", "3"), ("b:i", "4"), ("xml:lang", "en")]] := by
    decide +kernel
  obtain ⟨e, he, hattributes⟩ := Outcome.map_eq_ok.mp hread
  exact ⟨e, he, hattributes, (attributesKept_of_read e).1 _ he⟩

end XmlShape.Xml
