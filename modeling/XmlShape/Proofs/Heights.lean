import XmlShape.Proofs.Corpus
import XmlShape.Proofs.Counting
import XmlShape.Statistics

/-! # Heights

Merging keeps the levels of a document: its summary is as high as the document is deep. A limit on the levels
that are counted changes nothing exactly if it is no less than that height (`ofDocument_agrees`). -/

namespace XmlShape

namespace Element

theorem height_eq (e : Element) : e.height = 1 + heightAll e.children := by
  cases e; rw [height]

theorem heightAll_append (es fs : List Element) : heightAll (es ++ fs) = max (heightAll es) (heightAll fs) := by
  induction es with
  | nil => simp [heightAll]
  | cons e es ih => rw [List.cons_append, heightAll, heightAll, ih, Nat.max_assoc]

theorem heightAll_perm {es fs : List Element} (h : es.Perm fs) : heightAll es = heightAll fs := by
  induction h with
  | nil => rfl
  | cons e _ ih => rw [heightAll, heightAll, ih]
  | swap e f es => simp only [heightAll]; omega
  | trans _ _ ih₁ ih₂ => exact ih₁.trans ih₂

/-- The children of all the elements are one level less high. -/
theorem heightAll_eq_children : ∀ {es : List Element}, es ≠ [] →
    heightAll es = 1 + heightAll (es.flatMap (·.children))
  | [], h => absurd rfl h
  | [e], _ => by simp [heightAll, height_eq]
  | e :: f :: es, _ => by
    have ih := heightAll_eq_children (List.cons_ne_nil f es)
    have hchildren : (e :: f :: es).flatMap (·.children) = e.children ++ (f :: es).flatMap (·.children) := rfl
    rw [heightAll, ih, height_eq, hchildren, heightAll_append]
    omega

/-- The levels of a tree are those up to its height, counted from the level of its root. -/
theorem forall_mem_levels_iff {k : Int} (e : Element) : ∀ level : Int,
    (∀ p ∈ levels level e, p.1 ≤ k) ↔ level + e.height ≤ k + 1 := by
  have hall : ∀ (level : Int) (es : List Element), level ≤ k + 1 →
      (∀ e ∈ es, (∀ p ∈ levels level e, p.1 ≤ k) ↔ level + e.height ≤ k + 1) →
      ((∀ p ∈ levelsAll level es, p.1 ≤ k) ↔ level + heightAll es ≤ k + 1) := by
    intro level es hlevel h
    induction es with
    | nil => simp [levelsAll, heightAll, hlevel]
    | cons e es ih =>
      obtain ⟨he, hes⟩ := List.forall_mem_cons.mp h
      rw [levelsAll, List.forall_mem_append, he, ih hes, heightAll]
      omega
  induction e using tree_induction with
  | step e ih =>
    intro level
    rw [levels_eq, List.forall_mem_cons, height_eq]
    by_cases hlevel : level ≤ k
    · rw [hall (level + 1) e.children (by omega) fun c hc => ih c hc (level + 1)]
      omega
    · refine iff_of_false (fun h => hlevel h.1) ?_
      omega

end Element

namespace Summary

open Element

mutual
/-- The number of levels in the tree; a summary without children has one. -/
def height : Summary → Nat
  | ⟨_, _, _, _, _, children⟩ => 1 + heightAll children

def heightAll : List Summary → Nat
  | [] => 0
  | s :: ss => max s.height (heightAll ss)
end

theorem height_eq (s : Summary) : s.height = 1 + heightAll s.children := by
  cases s; rw [height]

/-- Summaries as high as the groups they stand for are as high as all the groups together. -/
theorem heightAll_map {f : String → Summary} {g : String → List Element} : ∀ {ns : List String},
    (∀ n ∈ ns, (f n).height = Element.heightAll (g n)) → heightAll (ns.map f) = Element.heightAll (ns.flatMap g)
  | [], _ => rfl
  | n :: ns, h => by
    obtain ⟨hn, hns⟩ := List.forall_mem_cons.mp h
    rw [List.map_cons, heightAll, List.flatMap_cons, Element.heightAll_append, hn, heightAll_map hns]

/-- **Merging keeps the levels.** -/
theorem height_gather (name : String) (counts : List Int) {es : List Element} (h : es ≠ []) :
    (gather name counts es).height = Element.heightAll es := by
  have hbelow : ∀ n ∈ (childNames es).eraseDups,
      (gatherChild es n).height = Element.heightAll (childrenNamed n es) := by
    intro n hn
    have hn := List.mem_eraseDups.mp hn
    exact height_gather n _ fun hnil => childrenNamed_eq_nil.mp hnil hn
  rw [height_eq, children_gather, heightAll_map hbelow, heightAll_eq_children h,
    Element.heightAll_perm (flatMap_childrenNamed_perm es)]
termination_by Element.sizeAll es
decreasing_by exact sizeAll_childrenNamed_lt hn

theorem height_ofDocument (root : Element) : (ofDocument root).height = root.height := by
  rw [ofDocument_eq, height_gather _ _ (List.cons_ne_nil root [])]
  exact Nat.max_zero _

end Summary

namespace TagCount

open Element

theorem namesAll_none (level : Int) (es : List Element) :
    namesAll none level es = (levelsAll level es).map fun p => p.2.name := by
  simp [namesAll_eq, within]

/-- Counting down to a level gives the same numbers as counting everything just if nothing is below it. -/
theorem forall_countOf_eq_iff (roots : List Element) (k : Int) :
    (∀ name, countOf (ofDocuments roots (some k)) name = countOf (ofDocuments roots none) name) ↔
      ∀ p ∈ levelsAll 1 roots, p.1 ≤ k := by
  simp only [ofDocuments, countOf_ofNames, Int.natCast_inj]
  rw [← List.perm_iff_count, namesAll_none, namesAll_eq]
  constructor
  · intro h p hp
    have hlength := h.length_eq
    rw [List.length_map, List.length_map, List.length_filter_eq_length_iff] at hlength
    simpa [within] using hlength p hp
  · intro h
    rw [List.filter_eq_self.mpr fun p hp => by simpa [within] using h p hp]

theorem ofDocuments_eq_iff (roots : List Element) (k : Int) :
    ofDocuments roots (some k) = ofDocuments roots none ↔ ∀ p ∈ levelsAll 1 roots, p.1 ≤ k := by
  constructor
  · intro h
    rw [← forall_countOf_eq_iff, h]
    exact fun _ => rfl
  · intro h
    rw [ofDocuments, ofDocuments, namesAll_none, namesAll_eq,
      List.filter_eq_self.mpr fun p hp => by simpa [within] using h p hp]

end TagCount

namespace Statistics

/-- The children of the root are counted as they are merged. -/
theorem topLevel_ofDocument (root : Element) (file : String) (fileSize : Int) :
    (ofDocument root file fileSize).topLevel.map (fun t => (t.name, [t.count])) =
      (Summary.ofDocument root).children.map fun c => (c.name, c.counts) := by
  have hnames : Element.childNames [root] = root.children.map (·.name) := List.flatMap_singleton ..
  rw [Summary.ofDocument_eq, Summary.children_gather, hnames, ofDocument, TagCount.ofNames_eq, List.map_map,
    List.map_map]
  refine List.map_congr_left fun n _ => ?_
  have hcount : (root.children.map (·.name)).count n = (Element.named n root.children).length := by
    rw [List.count, List.countP_map, List.countP_eq_length_filter]
    rfl
  rw [Function.comp, Function.comp, hcount, Summary.name_gatherChild, Summary.gatherChild, Summary.gather_eq]
  rfl

/-- **Statistics agree with merging and with counting.** The depth of a document is the height of its summary,
and the children of its root are those of the summary, each with its one count. Counting down to a level gives
the same as counting everything, in order and name by name, just if the level is no less than the depth. -/
theorem ofDocument_agrees (root : Element) (file : String) (fileSize : Int) :
    (ofDocument root file fileSize).maxDepth = (Summary.ofDocument root).height ∧
    (ofDocument root file fileSize).topLevel.map (fun t => (t.name, [t.count])) =
      (Summary.ofDocument root).children.map (fun c => (c.name, c.counts)) ∧
    ∀ k : Int,
      (TagCount.ofDocuments [root] (some k) = TagCount.ofDocuments [root] none ↔
        ((ofDocument root file fileSize).maxDepth : Int) ≤ k) ∧
      ((∀ name, TagCount.countOf (TagCount.ofDocuments [root] (some k)) name =
          TagCount.countOf (TagCount.ofDocuments [root] none) name) ↔
        ((ofDocument root file fileSize).maxDepth : Int) ≤ k) := by
  have hlevels : ∀ k : Int, (∀ p ∈ Element.levelsAll 1 [root], p.1 ≤ k) ↔ (root.height : Int) ≤ k := by
    intro k
    have hone : Element.levelsAll 1 [root] = Element.levels 1 root := List.append_nil _
    rw [hone, Element.forall_mem_levels_iff]
    omega
  refine ⟨(Summary.height_ofDocument root).symm, topLevel_ofDocument root file fileSize, fun k => ⟨?_, ?_⟩⟩
  · rw [TagCount.ofDocuments_eq_iff, hlevels]
    rfl
  · rw [TagCount.forall_countOf_eq_iff, hlevels]
    rfl

end Statistics

end XmlShape
