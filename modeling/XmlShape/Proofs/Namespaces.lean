import XmlShape.Proofs.Counting
import XmlShape.Statistics

/-! # Namespaces in the order of their declarations

What the walk through a tree has found goes along with it from branch to branch, and each element adds what is new.
All branches together find what one pass over all declarations of the tree finds, in document order: each namespace
where it is declared first (`addNamespaces_inOrder`). -/

namespace XmlShape.Statistics

def declaredBy (ps : List (Int × Element)) : List String :=
  ps.flatMap fun p => p.2.namespaces.map (·.2)

def declared (root : Element) : List String :=
  declaredBy (Element.levels 1 root)

/-! ## One pass over all declarations -/

theorem addNew_append (found us vs : List String) : addNew found (us ++ vs) = addNew (addNew found us) vs :=
  List.foldl_append

/-- What has been found is at all times what occurs in the texts so far, each text once. -/
theorem addNew_eraseDups (us : List String) : ∀ seen : List String,
    addNew seen.eraseDups us = (seen ++ us).eraseDups := by
  induction us with
  | nil => exact fun seen => congrArg List.eraseDups (List.append_nil seen).symm
  | cons u us ih =>
    intro seen
    have hstep : addNew seen.eraseDups [u] = (seen ++ [u]).eraseDups := by
      rw [FirstSeen.eraseDups_snoc]
      simp [addNew]
    rw [← List.singleton_append, addNew_append, hstep, ih, List.append_assoc]

/-! ## The walk -/

theorem declaredBy_append (ps qs : List (Int × Element)) :
    declaredBy (ps ++ qs) = declaredBy ps ++ declaredBy qs :=
  List.flatMap_append

/-- An element's own declarations stand before those of its children. -/
theorem declaredBy_levels (level : Int) (e : Element) :
    declaredBy (Element.levels level e) =
      e.namespaces.map (·.2) ++ declaredBy (Element.levelsAll (level + 1) e.children) := by
  rw [Element.levels_eq]
  exact List.flatMap_cons

theorem addNamespacesAll_eq {es : List Element}
    (h : ∀ e ∈ es, ∀ level found, addNamespaces found e = addNew found (declaredBy (Element.levels level e))) :
    ∀ level found, addNamespacesAll found es = addNew found (declaredBy (Element.levelsAll level es)) := by
  induction es with
  | nil => exact fun _ _ => rfl
  | cons e es ih =>
    obtain ⟨he, hes⟩ := List.forall_mem_cons.mp h
    intro level found
    rw [addNamespacesAll, he level, ih hes level, Element.levelsAll, declaredBy_append, addNew_append]

/-- A walk adds what one pass over the declarations of its tree adds, whatever was found before. -/
theorem addNamespaces_eq (e : Element) : ∀ level found,
    addNamespaces found e = addNew found (declaredBy (Element.levels level e)) := by
  induction e using Element.tree_induction with
  | step e ih =>
    obtain ⟨name, attributes, children, text, namespaces⟩ := e
    intro level found
    rw [addNamespaces, addNamespacesAll_eq ih (level + 1), declaredBy_levels, addNew_append]

/-- **Namespaces come in the order of their first declarations.** What was found before stays in front, and the walk
through a tree adds all else that is declared anywhere in it, each namespace once. -/
theorem addNamespaces_inOrder (root : Element) (found : List String) (hfound : found.Nodup) :
    ∃ added, addNamespaces found root = found ++ added ∧ (found ++ added).Nodup ∧
      (∀ u, u ∈ added ↔ u ∈ declared root ∧ u ∉ found) ∧
      added.Pairwise fun u v => (declared root).idxOf u < (declared root).idxOf v := by
  have hwalk : addNamespaces found root = (found ++ declared root).eraseDups := by
    rw [addNamespaces_eq root 1, ← addNew_eraseDups, FirstSeen.eraseDups_of_nodup hfound]
    rfl
  have hadded := FirstSeen.eraseDups_append found (declared root)
  rw [FirstSeen.eraseDups_of_nodup hfound] at hadded
  refine ⟨_, hwalk.trans hadded, hadded ▸ FirstSeen.nodup_eraseDups _, fun u => ?_, ?_⟩
  · rw [List.mem_filter, List.mem_eraseDups]
    simp
  · exact (FirstSeen.pairwise_idxOf_eraseDups _).filter _

def branches : Element :=
  ⟨"a", [], [⟨"b", [], [⟨"c", [], [], "", [("xmlns", "x")]⟩], "", [("xmlns", "w"), ("xmlns:p", "u")]⟩,
    ⟨"d", [], [], "", [("xmlns:q", "y"), ("xmlns:r", "w")]⟩], "", [("xmlns", "v"), ("xmlns:p", "u")]⟩

theorem addNamespaces_inOrder_branches :
    let found := ["x", "z"]
    let added := ["v", "u", "w", "y"]
    found.Nodup ∧ declared branches = ["v", "u", "w", "u", "x", "y", "w"] ∧
      addNamespaces found branches = found ++ added ∧ (found ++ added).Nodup ∧
      (∀ u, u ∈ added ↔ u ∈ declared branches ∧ u ∉ found) ∧
      added.Pairwise fun u v => (declared branches).idxOf u < (declared branches).idxOf v := by
  intro found added
  have hfound : found.Nodup := by decide
  obtain ⟨others, hwalk, hspec⟩ := addNamespaces_inOrder branches found hfound
  have hbranches : addNamespaces found branches = found ++ added := by decide +kernel
  obtain rfl : others = added := List.append_cancel_left (hwalk.symm.trans hbranches)
  exact ⟨hfound, by decide +kernel, hwalk, hspec⟩

end XmlShape.Statistics
