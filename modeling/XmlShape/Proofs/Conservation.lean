import XmlShape.Proofs.Corpus
import XmlShape.Proofs.Counting

/-! # Conservation of elements

Merging documents loses no element and invents none: at whatever levels and under whatever names, the
summaries of a corpus have as many instances as there are elements in its documents. So counting names
in the documents agrees with counting them in the corpus (`countOf_ofDocuments`). -/

namespace XmlShape

theorem total_flatMap {α : Type} (f : α → List Int) : ∀ xs : List α,
    total (xs.flatMap f) = total (xs.map fun x => total (f x))
  | [] => rfl
  | x :: xs => by rw [List.flatMap_cons, total_append, total_flatMap f xs, List.map_cons, total]

/-- What is added up name by name is added up over the whole list. -/
theorem total_groups {α : Type} (key : α → String) (g : α → Int) (xs : List α) :
    total ((xs.map key).eraseDups.map fun n => total ((xs.filter fun x => key x == n).map g)) = total (xs.map g) := by
  rw [← total_flatMap, ← List.map_flatMap]
  exact total_perm ((FirstSeen.flatMap_groups_perm key xs).map g)

namespace Element

/-- How many elements of a tree stand at the chosen levels under the chosen names. -/
def numberWhere (chosen : Int → String → Bool) (level : Int) (e : Element) : Int :=
  ((levels level e).countP fun p => chosen p.1 p.2.name : Nat)

section
variable (chosen : Int → String → Bool)

theorem countP_levelsAll (level : Int) : ∀ es : List Element,
    ((levelsAll level es).countP fun p => chosen p.1 p.2.name : Nat) = total (es.map (numberWhere chosen level))
  | [] => rfl
  | e :: es => by
    rw [levelsAll, List.countP_append, Int.natCast_add, countP_levelsAll level es, List.map_cons, total]
    rfl

theorem numberWhere_eq (level : Int) (e : Element) :
    numberWhere chosen level e =
      (if chosen level e.name then 1 else 0) + total (e.children.map (numberWhere chosen (level + 1))) := by
  rw [← countP_levelsAll, numberWhere, levels_eq, List.countP_cons]
  split <;> omega

end

theorem numberWhere_all (level : Int) (e : Element) : numberWhere (fun _ _ => true) level e = e.size := by
  rw [numberWhere, List.countP_true, levels_eq, List.length_cons, length_levelsAll, size_eq]
  omega

end Element

namespace Summary

mutual
def levels (level : Int) : Summary → List (Int × Summary)
  | ⟨name, counts, mixed, texts, attributes, children⟩ =>
    (level, ⟨name, counts, mixed, texts, attributes, children⟩) :: levelsAll (level + 1) children

def levelsAll (level : Int) : List Summary → List (Int × Summary)
  | [] => []
  | s :: ss => levels level s ++ levelsAll level ss
end

def instancesWhere (chosen : Int → String → Bool) (level : Int) (s : Summary) : Int :=
  total (((levels level s).filter fun p => chosen p.1 p.2.name).map fun p => p.2.instances)

section
variable (chosen : Int → String → Bool)

theorem levels_eq (level : Int) (s : Summary) : levels level s = (level, s) :: levelsAll (level + 1) s.children := by
  cases s; rw [levels]

theorem total_levelsAll (level : Int) (ss : List Summary) :
    total (((levelsAll level ss).filter fun p => chosen p.1 p.2.name).map fun p => p.2.instances) =
      total (ss.map (instancesWhere chosen level)) := by
  induction ss with
  | nil => rfl
  | cons s ss ih =>
    rw [levelsAll, List.filter_append, List.map_append, total_append, ih, List.map_cons, total]
    rfl

theorem instancesWhere_eq (level : Int) (s : Summary) :
    instancesWhere chosen level s =
      (if chosen level s.name then s.instances else 0) + total (s.children.map (instancesWhere chosen (level + 1))) := by
  rw [← total_levelsAll, instancesWhere, levels_eq, List.filter_cons]
  split
  · rw [List.map_cons, total]
  · rw [Int.zero_add]

open Element

theorem total_numberWhere (level : Int) (name : String) : ∀ es : List Element, (∀ e ∈ es, e.name = name) →
    total (es.map (numberWhere chosen level)) =
      (if chosen level name then (es.length : Int) else 0) +
        total ((es.flatMap (·.children)).map (numberWhere chosen (level + 1)))
  | [], _ => by split <;> rfl
  | e :: es, h => by
    have ih := total_numberWhere level name es fun f hf => h f (List.mem_cons_of_mem e hf)
    rw [List.map_cons, total, numberWhere_eq, ih, h e (List.mem_cons_self ..), List.flatMap_cons, List.map_append,
      total_append, List.length_cons]
    split <;> omega

theorem instancesWhere_gather (level : Int) (name : String) (counts : List Int) (es : List Element)
    (hn : ∀ e ∈ es, e.name = name) (hc : total counts = es.length) :
    instancesWhere chosen level (gather name counts es) = total (es.map (numberWhere chosen level)) := by
  have hbelow : ∀ n ∈ (childNames es).eraseDups,
      instancesWhere chosen (level + 1) (gatherChild es n) =
        total ((childrenNamed n es).map (numberWhere chosen (level + 1))) := by
    intro n hn
    have hn := List.mem_eraseDups.mp hn
    exact instancesWhere_gather (level + 1) n _ _ (fun c hc => (mem_childrenNamed.mp hc).elim fun _ h => h.2.2)
      (total_childCounts n es)
  -- the groups below the summary are those of all the children of `es`
  rw [instancesWhere_eq, name_gather, instances_gather, hc, children_gather, List.map_map]
  have hmap := List.map_congr_left hbelow
  simp only [childrenNamed_eq_named, named] at hmap
  rw [Function.comp_def, hmap, childNames_eq_map, total_groups, ← total_numberWhere chosen level name es hn]
termination_by Element.sizeAll es
decreasing_by exact sizeAll_childrenNamed_lt hn

/-- **Conservation.** At the chosen levels and names a corpus has as many instances as its documents have
elements. -/
theorem total_instancesWhere_ofDocuments (level : Int) (roots : List Element) :
    total ((ofDocuments roots).map (instancesWhere chosen level)) = total (roots.map (numberWhere chosen level)) := by
  have hroots : ∀ n ∈ (roots.map (·.name)).eraseDups,
      instancesWhere chosen level (gatherRoots roots n) = total ((named n roots).map (numberWhere chosen level)) :=
    fun n _ => instancesWhere_gather chosen level n _ _ (fun e he => (mem_named.mp he).2) (total_replicate_one _)
  rw [ofDocuments_eq, List.map_map, Function.comp_def, List.map_congr_left hroots]
  exact total_groups _ _ roots

end

theorem sizeAll_eq (ss : List Summary) : sizeAll ss = total (ss.map size) := by
  induction ss with
  | nil => rfl
  | cons s ss ih => rw [sizeAll, ih, List.map_cons, total]

theorem size_eq (s : Summary) : s.size = s.instances + total (s.children.map size) := by
  cases s
  rw [size, sizeAll_eq]
  rfl

theorem instancesWhere_all (level : Int) (s : Summary) : instancesWhere (fun _ _ => true) level s = s.size := by
  have hbelow : ∀ c ∈ s.children, instancesWhere (fun _ _ => true) (level + 1) c = c.size :=
    fun c hc => instancesWhere_all (level + 1) c
  rw [instancesWhere_eq, size_eq, List.map_congr_left hbelow]
  rfl
termination_by sizeOf s
decreasing_by
  cases s
  have := List.sizeOf_lt_of_mem hc
  simp only [Summary.mk.sizeOf_spec] at this ⊢
  omega

end Summary

namespace TagCount

open Element Summary

theorem countOf_ofDocuments_eq (roots : List Element) (limit : Option Int) (name : String) :
    countOf (ofDocuments roots limit) name =
      total ((Summary.ofDocuments roots).map (instancesWhere (fun level n => within limit level && n == name) 1)) := by
  rw [ofDocuments, countOf_ofNames, count_namesAll, total_instancesWhere_ofDocuments]
  exact countP_levelsAll (fun level n => within limit level && n == name) 1 roots

theorem mem_map_name_iff (ns : List String) (name : String) :
    name ∈ (ofNames ns).map (·.name) ↔ countOf (ofNames ns) name ≠ 0 := by
  rw [map_name_ofNames, List.mem_eraseDups, countOf_ofNames, ← List.count_pos_iff]
  omega

/-- **Counting agrees with merging.** The names counted down to a level are those of the summaries down
to there, each once, with the number of all their instances. In all, a corpus has as many instances as
its documents have elements. -/
theorem countOf_ofDocuments (roots : List Element) (limit : Option Int) :
    (∀ name, countOf (ofDocuments roots limit) name =
      total ((Summary.ofDocuments roots).map (instancesWhere (fun level n => within limit level && n == name) 1))) ∧
    ((ofDocuments roots limit).map (·.name)).Nodup ∧
    (∀ name, name ∈ (ofDocuments roots limit).map (·.name) ↔
      total ((Summary.ofDocuments roots).map
        (instancesWhere (fun level n => within limit level && n == name) 1)) ≠ 0) ∧
    total ((Summary.ofDocuments roots).map Summary.size) = total (roots.map fun r => (r.size : Int)) := by
  refine ⟨countOf_ofDocuments_eq roots limit, ?_, fun name => ?_, ?_⟩
  · rw [ofDocuments, map_name_ofNames]
    exact FirstSeen.nodup_eraseDups _
  · rw [← countOf_ofDocuments_eq]
    exact mem_map_name_iff _ name
  · rw [← funext (instancesWhere_all 1), ← funext (numberWhere_all 1)]
    exact total_instancesWhere_ofDocuments _ 1 roots

end TagCount

end XmlShape
