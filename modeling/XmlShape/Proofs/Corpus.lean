import XmlShape.Proofs.Gather
import XmlShape.Summary.Merge

/-! # Corpora

Merging documents root by root gathers the roots of each name, with a count of one for each of them.
Siblings of one name are gathered in the same way but counted together, so the two ways of
summarising a list of roots differ in the counts of the roots alone (`absorb_ofSiblings`). -/

namespace XmlShape

open Element

namespace Summary

theorem ofDocument_eq (root : Element) : ofDocument root = gather root.name [1] [root] := by
  refine ofGroup_eq_gather root.name [root] fun e he => ?_
  rw [List.mem_singleton.mp he]
  exact scope_eq root

def gatherRoots (roots : List Element) (name : String) : Summary :=
  gather name (List.replicate (named name roots).length 1) (named name roots)

@[simp] theorem name_gatherRoots (roots : List Element) (name : String) : (gatherRoots roots name).name = name :=
  name_gather ..

theorem named_snoc (roots : List Element) (root : Element) (name : String) :
    named name (roots ++ [root]) = if root.name = name then named name roots ++ [root] else named name roots := by
  rw [named, List.filter_append]
  by_cases h : root.name = name <;> simp [named, h]

theorem gatherRoots_snoc_of_ne {roots : List Element} {root : Element} {name : String} (h : root.name ≠ name) :
    gatherRoots (roots ++ [root]) name = gatherRoots roots name := by
  rw [gatherRoots, gatherRoots, named_snoc, if_neg h]

theorem gatherRoots_snoc (roots : List Element) (root : Element) :
    gatherRoots (roots ++ [root]) root.name = (gatherRoots roots root.name).absorb (ofDocument root) := by
  rw [ofDocument_eq, gatherRoots, gatherRoots, named_snoc, if_pos rfl,
    absorb_gather _ _ _ _ _ _ (total_replicate_one _) (by rfl), List.length_append]
  congr 1
  exact List.replicate_add ..

theorem contains_map_gatherRoots (roots : List Element) (ns : List String) (name : String) :
    contains (ns.map (gatherRoots roots)) name = ns.contains name :=
  FirstSeen.any_family (name_gatherRoots roots) ns name

theorem addDocument_gatherRoots (roots : List Element) (root : Element) :
    addDocument ((roots.map (·.name)).eraseDups.map (gatherRoots roots)) (ofDocument root) =
      ((roots ++ [root]).map (·.name)).eraseDups.map (gatherRoots (roots ++ [root])) := by
  have hname : (ofDocument root).name = root.name := by rw [ofDocument_eq, name_gather]
  have hother : ∀ n, n ≠ root.name → gatherRoots (roots ++ [root]) n = gatherRoots roots n :=
    fun n hn => gatherRoots_snoc_of_ne (Ne.symm hn)
  rw [addDocument, contains_map_gatherRoots, hname, List.map_append, List.map_singleton,
    FirstSeen.eraseDups_snoc]
  by_cases h : root.name ∈ roots.map (·.name)
  · rw [if_pos (by simpa using h), if_pos h, List.map_map]
    refine List.map_congr_left fun n _ => ?_
    rw [Function.comp, name_gatherRoots]
    by_cases hn : n = root.name
    · rw [if_pos hn, hn, gatherRoots_snoc]
    · rw [if_neg hn, hother n hn]
  · have hnew : named root.name roots = [] := named_eq_nil.mpr h
    rw [if_neg (by simpa using h), if_neg h, List.map_append, List.map_singleton]
    congr 1
    · refine List.map_congr_left fun n hn => (hother n fun e => h ?_).symm
      exact e ▸ List.mem_eraseDups.mp hn
    · rw [ofDocument_eq, gatherRoots, named_snoc, if_pos rfl, hnew]
      rfl

/-- Documents are gathered root name by root name, each of them counted once. -/
theorem ofDocuments_eq (roots : List Element) :
    ofDocuments roots = (roots.map (·.name)).eraseDups.map (gatherRoots roots) := by
  suffices H : ∀ rs done : List Element,
      (rs.map ofDocument).foldl addDocument ((done.map (·.name)).eraseDups.map (gatherRoots done)) =
        ((done ++ rs).map (·.name)).eraseDups.map (gatherRoots (done ++ rs)) from H roots []
  intro rs
  induction rs with
  | nil => intro done; rw [List.append_nil]; rfl
  | cons r rs ih =>
    intro done
    rw [List.map_cons, List.foldl_cons, addDocument_gatherRoots, ih (done ++ [r]), List.append_assoc]
    rfl

theorem find?_ofSiblings {es : List Element} {name : String} (hne : es ≠ []) (hn : ∀ e ∈ es, e.name = name) :
    find? (ofSiblings es) name = some (gather name [(es.length : Int)] es) := by
  have hall : named name es = es := List.filter_eq_self.mpr fun e he => by simpa using hn e he
  have hmem : name ∈ (es.map (·.name)).eraseDups := by
    obtain ⟨e, he⟩ := List.exists_mem_of_ne_nil es hne
    exact List.mem_eraseDups.mpr (List.mem_map.mpr ⟨e, he, hn e he⟩)
  rw [ofSiblings_eq, find?, FirstSeen.find?_family (fun _ => name_gather ..), if_pos hmem, hall]

/-- Absorbing the summary of some siblings into that of others is summarising all of them, only that
each part keeps its count. So documents and siblings differ in the counts of their roots. -/
theorem absorb_ofSiblings :
    (∀ (name : String) (xs ys : List Element), xs ≠ [] → ys ≠ [] → (∀ e ∈ xs ++ ys, e.name = name) →
      ∃ s t u, find? (ofSiblings xs) name = some s ∧ find? (ofSiblings ys) name = some t ∧
        find? (ofSiblings (xs ++ ys)) name = some u ∧
        s.absorb t = { u with counts := [(xs.length : Int), (ys.length : Int)] }) ∧
    ∀ roots : List Element,
      (∀ s ∈ ofSiblings roots, s.counts = [((named s.name roots).length : Int)]) ∧
      ofDocuments roots =
        (ofSiblings roots).map fun s =>
          { s with counts := List.replicate (named s.name roots).length 1 } := by
  refine ⟨fun name xs ys hx hy hn => ?_, fun roots => ⟨fun s hs => ?_, ?_⟩⟩
  · have hxy : xs ++ ys ≠ [] := fun e => hx (List.append_eq_nil_iff.mp e).1
    refine ⟨_, _, _, find?_ofSiblings hx fun e he => hn e (List.mem_append_left _ he),
      find?_ofSiblings hy fun e he => hn e (List.mem_append_right _ he), find?_ofSiblings hxy hn, ?_⟩
    rw [absorb_gather _ _ _ _ _ _ (by simp [total]) (by simp [total]), gather_eq, gather_eq]
    rfl
  · rw [ofSiblings_eq] at hs
    obtain ⟨n, _, rfl⟩ := List.mem_map.mp hs
    rw [name_gather, gather_eq]
  · rw [ofDocuments_eq, ofSiblings_eq, List.map_map]
    refine List.map_congr_left fun n _ => ?_
    rw [Function.comp, name_gather, gatherRoots, gather_eq, gather_eq]

/-- Two siblings, of which only the second has a child. -/
theorem absorb_ofSiblings_pair :
    ∃ s t u, find? (ofSiblings [⟨"a", [], [], "x", []⟩]) "a" = some s ∧
      find? (ofSiblings [⟨"a", [], [⟨"b", [], [], "", []⟩], "", []⟩]) "a" = some t ∧
      find? (ofSiblings [⟨"a", [], [], "x", []⟩, ⟨"a", [], [⟨"b", [], [], "", []⟩], "", []⟩]) "a" = some u ∧
      s.absorb t = { u with counts := [1, 1] } :=
  absorb_ofSiblings.1 "a" [⟨"a", [], [], "x", []⟩] [⟨"a", [], [⟨"b", [], [], "", []⟩], "", []⟩]
    (List.cons_ne_nil _ _) (List.cons_ne_nil _ _) (by simp)

/-! ## What a summary stands for -/

/-- The summary is what these elements are gathered to, whatever name they have, and it counts them all. -/
def StandsFor (s : Summary) (es : List Element) : Prop :=
  ∃ counts, s = gather s.name counts es ∧ total counts = es.length ∧ ∀ n ∈ counts, 0 ≤ n

theorem standsFor_gather (name : String) {counts : List Int} {es : List Element} (htotal : total counts = es.length)
    (hcounts : ∀ n ∈ counts, 0 ≤ n) : StandsFor (gather name counts es) es :=
  ⟨counts, by rw [name_gather], htotal, hcounts⟩

theorem standsFor_ofDocument (root : Element) : StandsFor (ofDocument root) [root] := by
  rw [ofDocument_eq]
  exact standsFor_gather root.name rfl (by simp)

theorem standsFor_of_mem_ofSiblings {es : List Element} {s : Summary} (h : s ∈ ofSiblings es) :
    s.name ∈ es.map (·.name) ∧ StandsFor s (named s.name es) := by
  rw [ofSiblings_eq] at h
  obtain ⟨n, hn, rfl⟩ := List.mem_map.mp h
  rw [name_gather]
  exact ⟨List.mem_eraseDups.mp hn, standsFor_gather n (by simp [total]) (by simp)⟩

theorem standsFor_of_mem_ofDocuments {roots : List Element} {s : Summary} (h : s ∈ ofDocuments roots) :
    s.name ∈ roots.map (·.name) ∧ StandsFor s (named s.name roots) := by
  rw [ofDocuments_eq] at h
  obtain ⟨n, hn, rfl⟩ := List.mem_map.mp h
  rw [name_gatherRoots]
  refine ⟨List.mem_eraseDups.mp hn, standsFor_gather n (total_replicate_one _) fun k hk => ?_⟩
  rw [List.eq_of_mem_replicate hk]
  exact Int.one_nonneg

theorem StandsFor.absorb {s t : Summary} {es fs : List Element} (hs : StandsFor s es) (ht : StandsFor t fs) :
    StandsFor (s.absorb t) (es ++ fs) := by
  obtain ⟨cs, hs, hc, hcs⟩ := hs
  obtain ⟨ds, ht, hd, hds⟩ := ht
  rw [hs, ht, absorb_gather _ _ cs ds es fs hc hd]
  refine standsFor_gather _ ?_ (List.forall_mem_append.mpr ⟨hcs, hds⟩)
  rw [total_append, hc, hd, List.length_append, Int.natCast_add]

theorem StandsFor.child {s c : Summary} {es : List Element} (hs : StandsFor s es) (hc : c ∈ s.children) :
    c.name ∈ childNames es ∧ StandsFor c (childrenNamed c.name es) := by
  obtain ⟨cs, hs, -, -⟩ := hs
  rw [hs, children_gather] at hc
  obtain ⟨m, hm, rfl⟩ := List.mem_map.mp hc
  rw [name_gatherChild]
  exact ⟨List.mem_eraseDups.mp hm, standsFor_gather m (total_childCounts m es) (nonneg_childCounts m es)⟩

theorem merge_cases {s t u : Summary} (h : s.merge t = .ok u) : u = s ∨ u = s.absorb t := by
  unfold merge at h
  split at h
  · rw [← Except.ok.inj h]
    exact ite_eq_or_eq ..
  · cases h

end Summary

end XmlShape
