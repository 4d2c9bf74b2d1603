import Mathlib.Data.List.Nodup
import XmlShape.Proofs.Corpus

/-! # Names in a corpus

At no place of a corpus do two summaries have one name, so a path of names belongs to one summary
alone. -/

namespace XmlShape

namespace Summary

/-- At every level of the tree the children have distinct names, and so have the attributes. -/
inductive Keyed : Summary → Prop
  | intro {s : Summary} : (s.children.map (·.name)).Nodup → (s.attributes.map (·.name)).Nodup →
      (∀ c ∈ s.children, Keyed c) → Keyed s

theorem keyed_gather (name : String) (counts : List Int) (es : List Element) : Keyed (gather name counts es) := by
  rw [gather_eq]
  refine .intro ?_ ?_ fun c hc => ?_
  · rw [FirstSeen.map_key_family (name_gatherChild es)]
    exact FirstSeen.nodup_eraseDups _
  · rw [AttributeSummary.map_name_tally]
    exact FirstSeen.nodup_eraseDups _
  · obtain ⟨m, hm, rfl⟩ := List.mem_map.mp hc
    have hm := List.mem_eraseDups.mp hm
    exact keyed_gather m _ _
termination_by Element.sizeAll es
decreasing_by exact Element.sizeAll_childrenNamed_lt hm

theorem keyed_ofDocuments (roots : List Element) : ∀ s ∈ ofDocuments roots, Keyed s := by
  rw [ofDocuments_eq]
  intro s hs
  obtain ⟨n, -, rfl⟩ := List.mem_map.mp hs
  exact keyed_gather ..

theorem nodup_names_ofDocuments (roots : List Element) : ((ofDocuments roots).map (·.name)).Nodup := by
  rw [ofDocuments_eq, FirstSeen.map_key_family (name_gatherRoots roots)]
  exact FirstSeen.nodup_eraseDups _

/-- A root occurs once in each document that has it. -/
theorem range_ofDocuments {roots : List Element} : ∀ s ∈ ofDocuments roots, s.range = ⟨1, 1⟩ := by
  rw [ofDocuments_eq]
  intro s hs
  obtain ⟨n, hn, rfl⟩ := List.mem_map.mp hs
  have hsome : (Element.named n roots).length ≠ 0 := fun h =>
    Element.named_eq_nil.mp (List.length_eq_zero_iff.mp h) (List.mem_eraseDups.mp hn)
  rw [gatherRoots, gather_eq]
  exact OccurrenceRange.ofCounts_replicate hsome 1

/-! ## Paths -/

mutual
def paths : Summary → List (List String)
  | ⟨name, _, _, _, _, children⟩ => [name] :: (pathsAll children).map (name :: ·)

def pathsAll : List Summary → List (List String)
  | [] => []
  | s :: ss => s.paths ++ pathsAll ss
end

theorem head?_of_mem_paths {s : Summary} : ∀ p ∈ s.paths, p.head? = some s.name := by
  cases s
  rw [paths]
  refine List.forall_mem_cons.mpr ⟨rfl, fun p hp => ?_⟩
  obtain ⟨q, -, rfl⟩ := List.mem_map.mp hp
  rfl

theorem head?_of_mem_pathsAll : ∀ {ss : List Summary}, ∀ p ∈ pathsAll ss, ∃ s ∈ ss, p.head? = some s.name
  | [], p, hp => by rw [pathsAll] at hp; cases hp
  | s :: ss, p, hp => by
    rw [pathsAll] at hp
    rcases List.mem_append.mp hp with hp | hp
    · exact ⟨s, List.mem_cons_self .., head?_of_mem_paths p hp⟩
    · obtain ⟨t, ht, hhead⟩ := head?_of_mem_pathsAll p hp
      exact ⟨t, List.mem_cons_of_mem s ht, hhead⟩

theorem nodup_pathsAll {ss : List Summary} (h : ∀ s ∈ ss, s.paths.Nodup) (hnames : (ss.map (·.name)).Nodup) :
    (pathsAll ss).Nodup := by
  induction ss with
  | nil => rw [pathsAll]; exact List.nodup_nil
  | cons s ss ih =>
    obtain ⟨hs, hss⟩ := List.forall_mem_cons.mp h
    obtain ⟨hfresh, hnames⟩ := List.nodup_cons.mp hnames
    rw [pathsAll]
    refine List.nodup_append.mpr ⟨hs, ih hss hnames, ?_⟩
    rintro p hp q hq rfl
    obtain ⟨t, ht, hhead⟩ := head?_of_mem_pathsAll p hq
    have hname : s.name = t.name := Option.some.inj ((head?_of_mem_paths p hp).symm.trans hhead)
    exact hfresh (List.mem_map.mpr ⟨t, ht, hname.symm⟩)

theorem nodup_paths {s : Summary} (hs : Keyed s) : s.paths.Nodup := by
  induction hs with
  | @intro s hnames _ _ ih =>
    obtain ⟨name, counts, mixed, texts, attributes, children⟩ := s
    rw [paths]
    refine List.nodup_cons.mpr ⟨fun h => ?_, (nodup_pathsAll ih hnames).map List.cons_injective⟩
    obtain ⟨p, hp, hnil⟩ := List.mem_map.mp h
    obtain ⟨s, -, hhead⟩ := head?_of_mem_pathsAll p hp
    rw [(List.cons.inj hnil).2] at hhead
    cases hhead

theorem nodup_paths_ofDocuments (roots : List Element) : (pathsAll (ofDocuments roots)).Nodup :=
  nodup_pathsAll (fun s hs => nodup_paths (keyed_ofDocuments roots s hs)) (nodup_names_ofDocuments roots)

end Summary

end XmlShape
