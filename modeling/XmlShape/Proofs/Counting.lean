import XmlShape.Proofs.Gather
import XmlShape.Tags

/-! # Counting names

Counting names one by one gives each name, in first-seen order, with the number of times it occurs.
The walk that leaves off below a level lists the names of just those elements that are not below it. -/

namespace XmlShape

namespace Element

mutual
def levels (level : Int) : Element → List (Int × Element)
  | ⟨name, attributes, children, text, namespaces⟩ =>
    (level, ⟨name, attributes, children, text, namespaces⟩) :: levelsAll (level + 1) children

def levelsAll (level : Int) : List Element → List (Int × Element)
  | [] => []
  | e :: es => levels level e ++ levelsAll level es
end

theorem levels_eq (level : Int) (e : Element) : levels level e = (level, e) :: levelsAll (level + 1) e.children := by
  cases e; rw [levels]

theorem length_levelsAll (es : List Element) (level : Int) : (levelsAll level es).length = sizeAll es := by
  match es with
  | [] => rfl
  | e :: es =>
    rw [levelsAll, levels_eq, List.length_append, List.length_cons, length_levelsAll e.children, length_levelsAll es,
      sizeAll, size_eq]
    omega
termination_by sizeAll es
decreasing_by all_goals (simp only [sizeAll, size_eq]; omega)

end Element

namespace TagCount

def countOf (ts : List TagCount) (name : String) : Int :=
  ((ts.find? fun t => t.name == name).map (·.count)).getD 0

theorem add_eq_update (name : String) : ∀ ts : List TagCount,
    add name ts = FirstSeen.update (·.name) name (fun t => ⟨t.name, t.count + 1⟩) ⟨name, 1⟩ ts
  | [] => rfl
  | t :: ts => by rw [add, FirstSeen.update, add_eq_update name ts]

theorem ofNames_eq (ns : List String) : ofNames ns = ns.eraseDups.map fun n => ⟨n, (ns.count n : Int)⟩ := by
  have hsnoc : ∀ (ms : List String) (m : String), (ms ++ [m]).count m = ms.count m + 1 := by
    intro ms m
    simp
  have h := FirstSeen.foldl_family (f := fun ms n => (⟨n, (ms.count n : Int)⟩ : TagCount))
    (fun _ _ => rfl) (fun ts n => add_eq_update n ts) (fun ms m _ => ?_) (fun ms m hm => ?_)
    (fun ms m n hn => ?_) ns []
  · simp only [List.map_id', List.nil_append] at h
    exact h
  · rw [hsnoc]
    rfl
  · rw [List.map_id'] at hm
    rw [hsnoc, List.count_eq_zero.mpr hm]
    rfl
  · simp [List.count_append, Ne.symm hn]

theorem map_name_ofNames (ns : List String) : (ofNames ns).map (·.name) = ns.eraseDups := by
  rw [ofNames_eq]
  exact FirstSeen.map_key_family (fun _ => rfl) _

theorem countOf_ofNames (ns : List String) (name : String) : countOf (ofNames ns) name = (ns.count name : Int) := by
  rw [countOf, ofNames_eq, FirstSeen.find?_family (fun _ => rfl)]
  simp only [List.mem_eraseDups]
  by_cases h : name ∈ ns
  · rw [if_pos h]; rfl
  · rw [if_neg h, List.count_eq_zero.mpr h]; rfl

/-! ## Levels -/

theorem within_of_within_succ {limit : Option Int} {level : Int} (h : within limit (level + 1) = true) :
    within limit level = true := by
  cases limit with
  | none => rfl
  | some depth =>
    simp only [within, decide_eq_true_eq] at h ⊢
    omega

theorem names_eq (limit : Option Int) (level : Int) (e : Element) :
    names limit level e = if within limit level then e.name :: namesAll limit (level + 1) e.children else [] := by
  cases e; rw [names]

theorem namesAll_eq_nil {limit : Option Int} {level : Int} (h : within limit level = false) : ∀ es : List Element,
    namesAll limit level es = []
  | [] => by rw [namesAll]
  | e :: es => by
    rw [namesAll, namesAll_eq_nil h es, names_eq, h]
    rfl

/-- The walk that stops at the limit lists what a walk through the whole tree finds within it. -/
theorem namesAll_eq (limit : Option Int) (level : Int) (es : List Element) :
    namesAll limit level es =
      ((Element.levelsAll level es).filter fun p => within limit p.1).map fun p => p.2.name := by
  match es with
  | [] => rw [namesAll]; rfl
  | e :: es =>
    have hbelow := namesAll_eq limit (level + 1) e.children
    have hrest := namesAll_eq limit level es
    rw [namesAll, names_eq, hrest, Element.levelsAll, Element.levels_eq, List.filter_append, List.map_append,
      List.filter_cons]
    congr 1
    by_cases h : within limit level = true
    · simp [h, hbelow]
    · -- the walk stops here, and nothing further down is within the limit either
      have hnot : within limit (level + 1) = false := by
        rw [Bool.eq_false_iff]
        exact fun hw => h (within_of_within_succ hw)
      rw [namesAll_eq_nil hnot] at hbelow
      simp [h, ← hbelow]
termination_by Element.sizeAll es
decreasing_by all_goals (simp only [Element.sizeAll, Element.size_eq]; omega)

theorem count_namesAll (limit : Option Int) (level : Int) (es : List Element) (name : String) :
    (namesAll limit level es).count name =
      (Element.levelsAll level es).countP fun p => within limit p.1 && p.2.name == name := by
  rw [namesAll_eq, List.count, List.countP_map, List.countP_filter]
  exact List.countP_congr fun p _ => by simp [and_comm]

end TagCount

end XmlShape
