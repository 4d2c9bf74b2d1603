import XmlShape.AttributePaths
import XmlShape.Proofs.Paths

/-! # The listing of attributes

A listing has one flat key for each attribute at each path, the names along the path joined by slashes.
Where no name holds a slash the key tells the path and the attribute apart again, so the listing and the
summaries of a corpus say the same of each attribute (`mem_ofDocuments_iff`). -/

namespace XmlShape

namespace Element

/-- No element of the tree has an empty name, and no name in it holds a slash. -/
inductive Slashless : Element → Prop
  | intro {e : Element} : e.name ≠ "" → '/' ∉ e.name.toList → (∀ a ∈ e.attributes, '/' ∉ a.1.toList) →
      (∀ c ∈ e.children, Slashless c) → Slashless e

namespace Slashless

variable {e : Element}

theorem name_ne : Slashless e → e.name ≠ ""
  | .intro h _ _ _ => h

theorem name : Slashless e → '/' ∉ e.name.toList
  | .intro _ h _ _ => h

theorem attributes : Slashless e → ∀ a ∈ e.attributes, '/' ∉ a.1.toList
  | .intro _ _ h _ => h

theorem children : Slashless e → ∀ c ∈ e.children, Slashless c
  | .intro _ _ _ h => h

end Slashless

/-- Along the path to an element stand names without slashes, and the element itself has such names. -/
theorem slashless_of_mem_placesAll {p : List String × Element} : ∀ {es : List Element}, (∀ e ∈ es, Slashless e) →
    p ∈ placesAll es → (∀ n ∈ p.1, '/' ∉ n.toList) ∧ Slashless p.2
  | e :: es, h, hp => by
    have he := h e (List.mem_cons_self ..)
    rw [placesAll, places_eq] at hp
    rcases List.mem_append.mp hp with hp | hp
    · rcases List.mem_cons.mp hp with rfl | hp
      · exact ⟨by simpa using he.name, he⟩
      · obtain ⟨q, hq, rfl⟩ := List.mem_map.mp hp
        obtain ⟨hnames, hq⟩ := slashless_of_mem_placesAll he.children hq
        exact ⟨List.forall_mem_cons.mpr ⟨he.name, hnames⟩, hq⟩
    · exact slashless_of_mem_placesAll (fun f hf => h f (List.mem_cons_of_mem e hf)) hp
termination_by es => sizeAll es
decreasing_by all_goals (simp only [sizeAll, size_eq]; omega)

end Element

namespace AttributePath

open Element Summary

/-- The names along a path and the name of an attribute there, as in `catalog/item/@sku`. -/
def key (path : List String) (name : String) : String :=
  "/".intercalate (path ++ ["@" ++ name])

def attributesAt (corpus : List Summary) (path : List String) : List AttributeSummary :=
  ((summaryAt corpus path).map (·.attributes)).getD []

/-! ## Keys -/

theorem key_eq {path : List String} (h : path ≠ []) (name : String) :
    key path name = "/".intercalate path ++ "/@" ++ name := by
  have hslash : "/@" = "/" ++ "@" := rfl
  rw [key, String.intercalate_append_of_ne_nil h (List.cons_ne_nil _ []), String.intercalate_singleton, hslash]
  simp only [String.append_assoc]

theorem key_injective {path other : List String} {name last : String} (hpath : ∀ n ∈ path, '/' ∉ n.toList)
    (hother : ∀ n ∈ other, '/' ∉ n.toList) (hname : '/' ∉ name.toList) (hlast : '/' ∉ last.toList)
    (h : key path name = key other last) : path = other ∧ name = last := by
  have hsplit : ∀ (ns : List String) (n : String), (∀ m ∈ ns, '/' ∉ m.toList) → '/' ∉ n.toList →
      (key ns n).toList.splitOn '/' = (ns ++ ["@" ++ n]).map String.toList := by
    intro ns n hns hn
    rw [key, String.toList_intercalate]
    refine List.splitOn_intercalate '/' (fun l hl => ?_) (by simp)
    obtain ⟨m, hm, rfl⟩ := List.mem_map.mp hl
    rcases List.mem_append.mp hm with hm | hm
    · exact hns m hm
    · rw [List.mem_singleton.mp hm]
      simpa using hn
  have heq := hsplit path name hpath hname
  rw [h, hsplit other last hother hlast] at heq
  have hparts := List.map_injective_iff.mpr (fun _ _ => String.toList_inj.mp) heq
  obtain ⟨hp, hn⟩ := List.append_inj' hparts rfl
  exact ⟨hp.symm, by simpa using hn.symm⟩

theorem extend_intercalate {parent : List String} (h : ∀ n ∈ parent, n ≠ "") (name : String) :
    extend ("/".intercalate parent) name = "/".intercalate (parent ++ [name]) := by
  cases parent with
  | nil => simp [extend]
  | cons n ns =>
    have hne : "/".intercalate (n :: ns) ≠ "" := by
      intro he
      have := congrArg String.toList he
      cases ns <;> simp_all
    rw [extend, if_neg hne, String.intercalate_append_of_ne_nil (List.cons_ne_nil n ns) (List.cons_ne_nil name []),
      String.intercalate_singleton]

theorem sightings_eq (parent : String) (e : Element) :
    sightings parent e =
      (properAttributes e.attributes).map (fun a => (extend parent e.name ++ "/@" ++ a.1, a.2)) ++
        sightingsAll (extend parent e.name) e.children := by
  cases e; rw [sightings]

/-- The walk that joins a path on the way down lists what stands at each place. -/
theorem sightingsAll_eq {parent : List String} (hparent : ∀ n ∈ parent, n ≠ "") : ∀ {es : List Element},
    (∀ e ∈ es, Slashless e) →
    sightingsAll ("/".intercalate parent) es =
      (placesAll es).flatMap fun p =>
        (properAttributes p.2.attributes).map fun a => (key (parent ++ p.1) a.1, a.2)
  | [], _ => rfl
  | e :: es, h => by
    have he := h e (List.mem_cons_self ..)
    have hnames : ∀ n ∈ parent ++ [e.name], n ≠ "" := by
      intro n hn
      rcases List.mem_append.mp hn with hn | hn
      · exact hparent n hn
      · exact List.mem_singleton.mp hn ▸ he.name_ne
    have hbelow := sightingsAll_eq hnames he.children
    have hrest := sightingsAll_eq hparent fun f hf => h f (List.mem_cons_of_mem _ hf)
    have hkey := key_eq (show parent ++ [e.name] ≠ [] by simp)
    rw [sightingsAll, sightings_eq, hrest, extend_intercalate hparent, hbelow, placesAll, places_eq]
    simp only [List.cons_append, List.flatMap_cons, List.flatMap_append, List.flatMap_map, List.append_assoc,
      List.nil_append, hkey]
termination_by es => Element.sizeAll es
decreasing_by all_goals (simp only [Element.sizeAll, Element.size_eq]; omega)

/-! ## Values -/

theorem add_eq_update (path value : String) : ∀ ps : List AttributePath,
    add path value ps =
      FirstSeen.update (·.path) path (fun p => ⟨p.path, p.values.insert value⟩) ⟨path, ValueSet.empty.insert value⟩ ps
  | [] => rfl
  | p :: ps => by rw [add, FirstSeen.update, add_eq_update path value ps]

/-- A listing has each key once, with the values seen under it. -/
theorem foldl_add_eq (ss : List (String × String)) :
    ss.foldl (fun ps s => add s.1 s.2 ps) [] =
      (ss.map (·.1)).eraseDups.map fun k => ⟨k, ValueSet.ofList (AttributeSummary.valuesOf k ss)⟩ := by
  refine FirstSeen.foldl_family (f := fun bs k => ⟨k, ValueSet.ofList (AttributeSummary.valuesOf k bs)⟩)
    (fun _ _ => rfl) (fun ps s => add_eq_update s.1 s.2 ps) (fun bs b _ => ?_) (fun bs b hb => ?_)
    (fun bs b n hn => ?_) ss []
  · simp only [AttributeSummary.valuesOf_snoc, ValueSet.ofList, List.foldl_append, List.foldl_cons, List.foldl_nil]
  · simp only [AttributeSummary.valuesOf_snoc, AttributeSummary.valuesOf_eq_nil hb]
    rfl
  · rw [AttributeSummary.valuesOf_snoc_of_ne bs b hn]

theorem mem_foldl_add {ss : List (String × String)} {p : AttributePath} :
    p ∈ ss.foldl (fun ps s => add s.1 s.2 ps) [] ↔
      p.path ∈ ss.map (·.1) ∧ p.values = ValueSet.ofList (AttributeSummary.valuesOf p.path ss) := by
  rw [foldl_add_eq, List.mem_map]
  constructor
  · rintro ⟨k, hk, rfl⟩
    exact ⟨List.mem_eraseDups.mp hk, rfl⟩
  · rintro ⟨hk, hv⟩
    exact ⟨p.path, List.mem_eraseDups.mpr hk, by rw [← hv]⟩

theorem attributesAt_ofDocuments (roots : List Element) (path : List String) :
    attributesAt (Summary.ofDocuments roots) path = AttributeSummary.tally (allAttributes (instancesAt roots path)) := by
  rcases List.eq_nil_or_concat' path with rfl | ⟨above, name, rfl⟩
  · rw [instancesAt_nil]; rfl
  · rw [attributesAt, summaryAt_ofDocuments]
    split
    · rename_i h
      rw [h]; rfl
    · rw [gather_eq]; rfl

section
variable {roots : List Element} (h : ∀ r ∈ roots, Slashless r)

include h in
/-- What is seen at some place is listed under the key of that place, and nothing else is listed. -/
theorem mem_sightings {k v : String} :
    (k, v) ∈ sightingsAll "" roots ↔
      ∃ path, ∃ e ∈ instancesAt roots path, ∃ n, (n, v) ∈ properAttributes e.attributes ∧ k = key path n := by
  have hwalk := sightingsAll_eq (List.forall_mem_nil (· ≠ "")) h
  rw [String.intercalate_nil] at hwalk
  rw [hwalk, List.mem_flatMap]
  simp only [mem_instancesAt, List.mem_map, Prod.mk.injEq, List.nil_append, Prod.exists]
  constructor
  · rintro ⟨path, e, hp, n, w, ha, rfl, rfl⟩
    exact ⟨path, e, hp, n, ha, rfl⟩
  · rintro ⟨path, e, hp, n, ha, rfl⟩
    exact ⟨path, e, hp, n, v, ha, rfl, rfl⟩

include h in
theorem key_injective_at {path other : List String} {e f : Element} {x y : String × String}
    (he : e ∈ instancesAt roots path) (hf : f ∈ instancesAt roots other) (hx : x ∈ properAttributes e.attributes)
    (hy : y ∈ properAttributes f.attributes) (hk : key path x.1 = key other y.1) : path = other ∧ x.1 = y.1 := by
  obtain ⟨hpath, he⟩ := slashless_of_mem_placesAll h (mem_instancesAt.mp he)
  obtain ⟨hother, hf⟩ := slashless_of_mem_placesAll h (mem_instancesAt.mp hf)
  exact key_injective hpath hother (he.attributes x (List.mem_filter.mp hx).1)
    (hf.attributes y (List.mem_filter.mp hy).1) hk

theorem exists_instance_of_mem_attributesAt {path : List String} {a : AttributeSummary}
    (ha : a ∈ attributesAt (Summary.ofDocuments roots) path) :
    ∃ e ∈ instancesAt roots path, ∃ x ∈ properAttributes e.attributes, x.1 = a.name := by
  rw [attributesAt_ofDocuments] at ha
  obtain ⟨x, hx, hn⟩ := List.mem_map.mp (AttributeSummary.mem_tally ha).1
  rw [allAttributes, properAttributes_flatMap] at hx
  obtain ⟨e, he, hx⟩ := List.mem_flatMap.mp hx
  exact ⟨e, he, x, hx, hn⟩

include h in
/-- The values listed under the key of an attribute are those of its summary. -/
theorem ofList_valuesOf_key {path : List String} {a : AttributeSummary}
    (ha : a ∈ attributesAt (Summary.ofDocuments roots) path) :
    ValueSet.ofList (AttributeSummary.valuesOf (key path a.name) (sightingsAll "" roots)) = a.values := by
  obtain ⟨e, he, x, hx, hxa⟩ := exists_instance_of_mem_attributesAt ha
  rw [attributesAt_ofDocuments] at ha
  refine ValueSet.ext_mem fun v => ?_
  rw [ValueSet.mem_ofList, AttributeSummary.mem_valuesOf, mem_sightings h, AttributeSummary.mem_values_of_mem_tally ha]
  have hproper := AttributeSummary.proper_of_mem_tally ha
  constructor
  · rintro ⟨other, f, hf, n, hn, hk⟩
    rw [← hxa] at hk
    obtain ⟨rfl, hxn⟩ := key_injective_at h he hf hx hn hk
    exact ⟨f, hf, hxa ▸ hxn ▸ (List.mem_filter.mp hn).1⟩
  · rintro ⟨f, hf, hv⟩
    exact ⟨path, f, hf, a.name, List.mem_filter.mpr ⟨hv, by simp [hproper]⟩, rfl⟩

end

/-- **The listing agrees with the corpus.** Each key is listed once; what is listed is, for every path and
every attribute of the summary there, its key with its values; and no two of these have the same key. -/
theorem mem_ofDocuments_iff (roots : List Element) (h : ∀ r ∈ roots, Slashless r) :
    ((ofDocuments roots).map (·.path)).Nodup ∧
    (∀ p, p ∈ ofDocuments roots ↔
      ∃ path, ∃ a ∈ attributesAt (Summary.ofDocuments roots) path, p = ⟨key path a.name, a.values⟩) ∧
    ∀ path other, ∀ a ∈ attributesAt (Summary.ofDocuments roots) path,
      ∀ b ∈ attributesAt (Summary.ofDocuments roots) other,
      key path a.name = key other b.name → path = other ∧ a = b := by
  refine ⟨?_, fun p => ⟨fun hp => ?_, ?_⟩, fun path other a ha b hb hk => ?_⟩
  · rw [ofDocuments, foldl_add_eq, FirstSeen.map_key_family fun _ => rfl]
    exact FirstSeen.nodup_eraseDups _
  · obtain ⟨hk, hv⟩ := mem_foldl_add.mp hp
    obtain ⟨s, hs, hps⟩ := List.mem_map.mp hk
    obtain ⟨path, e, he, n, hn, hkn⟩ := (mem_sightings h).mp hs
    obtain ⟨a, ha, han⟩ := AttributeSummary.exists_mem_tally he hn
    rw [← attributesAt_ofDocuments] at ha
    have hkey : p.path = key path a.name := by rw [han]; exact hps.symm.trans hkn
    refine ⟨path, a, ha, ?_⟩
    rw [← ofList_valuesOf_key h ha, ← hkey, ← hv]
  · rintro ⟨path, a, ha, rfl⟩
    obtain ⟨e, he, x, hx, hxa⟩ := exists_instance_of_mem_attributesAt ha
    have hs : (key path a.name, x.2) ∈ sightingsAll "" roots :=
      (mem_sightings h).mpr ⟨path, e, he, x.1, hx, by rw [hxa]⟩
    exact mem_foldl_add.mpr ⟨List.mem_map.mpr ⟨_, hs, rfl⟩, (ofList_valuesOf_key h ha).symm⟩
  · obtain ⟨e, he, x, hx, hxa⟩ := exists_instance_of_mem_attributesAt ha
    obtain ⟨f, hf, y, hy, hyb⟩ := exists_instance_of_mem_attributesAt hb
    rw [← hxa, ← hyb] at hk
    obtain ⟨rfl, hxy⟩ := key_injective_at h he hf hx hy hk
    rw [attributesAt_ofDocuments] at ha hb
    rw [(AttributeSummary.mem_tally ha).2, (AttributeSummary.mem_tally hb).2, ← hxa, ← hyb, hxy]
    exact ⟨rfl, rfl⟩

/-- Two documents that meet at a path, with a namespace declaration and a value that occurs twice. -/
theorem mem_ofDocuments_iff_pair :
    let roots : List Element :=
      [⟨"r", [("xmlns:p", "u")], [⟨"i", [("k", "2")], [], "", []⟩, ⟨"i", [("k", "1")], [], "", []⟩], "", []⟩,
        ⟨"r", [], [⟨"i", [("k", "1"), ("p:k", "")], [], "", []⟩], "", []⟩]
    (∀ r ∈ roots, Slashless r) ∧
      (ofDocuments roots).map (fun p => (p.path, p.values.toList)) = [("r/i/@k", ["1", "2"]), ("r/i/@p:k", [""])] ∧
      ((ofDocuments roots).map (·.path)).Nodup ∧
      ∃ path, ∃ a ∈ attributesAt (Summary.ofDocuments roots) path,
        (⟨"r/i/@k", ValueSet.ofList ["1", "2"]⟩ : AttributePath) = ⟨key path a.name, a.values⟩ := by
  intro roots
  have hleaf : ∀ attributes : List (String × String), (∀ a ∈ attributes, '/' ∉ a.1.toList) →
      Slashless ⟨"i", attributes, [], "", []⟩ := fun _ h => .intro (by simp) (by simp) h (by simp)
  have hroots : ∀ r ∈ roots, Slashless r := by
    simp only [roots, List.forall_mem_cons]
    refine ⟨.intro (by decide) (by decide) (by decide) ?_, .intro (by decide) (by decide) (by decide) ?_, by simp⟩
    · simp only [List.forall_mem_cons]
      exact ⟨hleaf _ (by decide), hleaf _ (by decide), by simp⟩
    · simp only [List.forall_mem_cons]
      exact ⟨hleaf _ (by decide), by simp⟩
  obtain ⟨hnodup, hmem, -⟩ := mem_ofDocuments_iff roots hroots
  exact ⟨hroots, rfl, hnodup, (hmem _).mp (List.mem_cons_self ..)⟩

end AttributePath

end XmlShape
