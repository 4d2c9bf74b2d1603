import XmlShape.Proofs.Occurrence
import XmlShape.Proofs.Tally
import XmlShape.Summary.Siblings

/-! # Gathering elements at once

`gather` is the summary of a list of elements read off at once: what is counted, collected or listed
at a path is counted, collected or listed over all elements there. Absorbing the summary of one list
into that of another gives the summary of the joined list (`absorb_gather`). Folding an instance in
is absorbing its summary, so siblings and documents are gathered too. -/

namespace XmlShape

namespace Element

def named (name : String) (es : List Element) : List Element :=
  es.filter (·.name == name)

def childrenNamed (name : String) (es : List Element) : List Element :=
  es.flatMap fun e => named name e.children

def childCounts (name : String) (es : List Element) : List Int :=
  es.map fun e => ((named name e.children).length : Int)

def childNames (es : List Element) : List String :=
  es.flatMap fun e => e.children.map (·.name)

def isMixed (e : Element) : Bool :=
  Text.trim e.text != "" && !e.children.isEmpty

def allTexts (es : List Element) : List String :=
  (es.map fun e => Text.trim e.text).filter (· != "")

def allAttributes (es : List Element) : List (String × String) :=
  es.flatMap (·.attributes)

section
variable (name : String) (es fs : List Element)

theorem childrenNamed_append :
    childrenNamed name (es ++ fs) = childrenNamed name es ++ childrenNamed name fs :=
  List.flatMap_append

theorem childCounts_append : childCounts name (es ++ fs) = childCounts name es ++ childCounts name fs :=
  List.map_append

theorem childNames_append : childNames (es ++ fs) = childNames es ++ childNames fs :=
  List.flatMap_append

theorem allTexts_append : allTexts (es ++ fs) = allTexts es ++ allTexts fs := by
  simp only [allTexts, List.map_append, List.filter_append]

theorem allAttributes_append : allAttributes (es ++ fs) = allAttributes es ++ allAttributes fs :=
  List.flatMap_append

end

theorem mem_named {name : String} {es : List Element} {e : Element} :
    e ∈ named name es ↔ e ∈ es ∧ e.name = name := by
  simp only [named, List.mem_filter, beq_iff_eq]

theorem named_cons (name : String) (e : Element) (es : List Element) :
    named name (e :: es) = if e.name = name then e :: named name es else named name es := by
  rw [named, List.filter_cons]
  by_cases h : e.name = name <;> simp [h, named]

theorem named_eq_nil {name : String} {es : List Element} : named name es = [] ↔ name ∉ es.map (·.name) := by
  rw [List.eq_nil_iff_forall_not_mem, List.mem_map]
  simp only [mem_named]
  constructor
  · rintro h ⟨e, he, hn⟩
    exact h e ⟨he, hn⟩
  · rintro h e ⟨he, hn⟩
    exact h ⟨e, he, hn⟩

theorem mem_childrenNamed {name : String} {es : List Element} {c : Element} :
    c ∈ childrenNamed name es ↔ ∃ e ∈ es, c ∈ e.children ∧ c.name = name := by
  simp only [childrenNamed, List.mem_flatMap, mem_named]

theorem mem_childNames {name : String} {es : List Element} :
    name ∈ childNames es ↔ ∃ e ∈ es, ∃ c ∈ e.children, c.name = name := by
  simp only [childNames, List.mem_flatMap, List.mem_map]

/-- The groups of children by name are groups of all the children together. -/
theorem childrenNamed_eq_named (name : String) (es : List Element) :
    childrenNamed name es = named name (es.flatMap (·.children)) :=
  List.filter_flatMap.symm

theorem childNames_eq_map (es : List Element) : childNames es = (es.flatMap (·.children)).map (·.name) :=
  List.map_flatMap.symm

theorem flatMap_childrenNamed_perm (es : List Element) :
    ((childNames es).eraseDups.flatMap fun n => childrenNamed n es).Perm (es.flatMap (·.children)) := by
  simp only [childrenNamed_eq_named, childNames_eq_map]
  exact FirstSeen.flatMap_groups_perm Element.name _

theorem childrenNamed_eq_nil {name : String} {es : List Element} :
    childrenNamed name es = [] ↔ name ∉ childNames es := by
  rw [mem_childNames, List.eq_nil_iff_forall_not_mem]
  simp only [mem_childrenNamed]
  constructor
  · rintro h ⟨e, he, c, hc, hn⟩
    exact h c ⟨e, he, hc, hn⟩
  · rintro h c ⟨e, he, hc, hn⟩
    exact h ⟨e, he, c, hc, hn⟩

theorem childCounts_of_absent {name : String} {es : List Element} (h : name ∉ childNames es) :
    childCounts name es = List.replicate es.length 0 := by
  refine List.eq_replicate_iff.mpr ⟨by simp [childCounts], fun k hk => ?_⟩
  obtain ⟨e, he, rfl⟩ := List.mem_map.mp hk
  have : named name e.children = [] := List.eq_nil_iff_forall_not_mem.mpr fun c hc =>
    h (mem_childNames.mpr ⟨e, he, c, mem_named.mp hc⟩)
  rw [this]; rfl

theorem nonneg_childCounts (name : String) (es : List Element) : ∀ k ∈ childCounts name es, 0 ≤ k := by
  intro k hk
  obtain ⟨e, -, rfl⟩ := List.mem_map.mp hk
  exact Int.natCast_nonneg _

theorem size_eq (e : Element) : e.size = 1 + sizeAll e.children := by
  cases e; rw [size]

theorem sizeAll_append : ∀ es fs : List Element, sizeAll (es ++ fs) = sizeAll es + sizeAll fs
  | [], fs => by simp [sizeAll]
  | e :: es, fs => by
    rw [List.cons_append, sizeAll, sizeAll, sizeAll_append es fs, Nat.add_assoc]

theorem sizeAll_filter_le (p : Element → Bool) : ∀ es : List Element, sizeAll (es.filter p) ≤ sizeAll es
  | [] => Nat.le_refl _
  | e :: es => by
    have ih := sizeAll_filter_le p es
    rw [List.filter_cons, sizeAll]
    split
    · rw [sizeAll]; omega
    · omega

theorem sizeAll_childrenNamed_le (name : String) : ∀ es : List Element,
    sizeAll (childrenNamed name es) + es.length ≤ sizeAll es
  | [] => Nat.le_refl _
  | e :: es => by
    have ih := sizeAll_childrenNamed_le name es
    have he := sizeAll_filter_le (·.name == name) e.children
    have hs : childrenNamed name (e :: es) = named name e.children ++ childrenNamed name es := rfl
    rw [hs, sizeAll_append, sizeAll, size_eq, List.length_cons, named]
    omega

theorem sizeAll_childrenNamed_lt {name : String} {es : List Element} (h : name ∈ childNames es) :
    sizeAll (childrenNamed name es) < sizeAll es := by
  obtain ⟨e, he, _⟩ := mem_childNames.mp h
  have := sizeAll_childrenNamed_le name es
  have := List.length_pos_of_mem he
  omega

theorem size_le_sizeAll {es : List Element} {e : Element} (h : e ∈ es) : e.size ≤ sizeAll es := by
  induction es with
  | nil => cases h
  | cons f es ih =>
    rw [sizeAll]
    rcases List.mem_cons.mp h with rfl | h
    · omega
    · have := ih h; omega

theorem sizeAll_children_lt {es : List Element} {e : Element} (h : e ∈ es) :
    sizeAll e.children < sizeAll es := by
  have := size_le_sizeAll h
  rw [size_eq] at this
  omega

theorem total_childCounts (name : String) : ∀ es : List Element,
    total (childCounts name es) = (childrenNamed name es).length
  | [] => rfl
  | e :: es => by
    have ih := total_childCounts name es
    have hs : childrenNamed name (e :: es) = named name e.children ++ childrenNamed name es := rfl
    rw [hs, List.length_append]
    simp only [childCounts, List.map_cons, total] at ih ⊢
    omega

end Element

namespace Summary

open Element

/-- The summary of elements, which may have come from several parents; `counts` says how many from
each. -/
def gather (name : String) (counts : List Int) (es : List Element) : Summary :=
  ⟨name, counts, es.any isMixed, allTexts es, AttributeSummary.tally (allAttributes es),
    (childNames es).eraseDups.attach.map fun n =>
      gather n.1 (childCounts n.1 es) (childrenNamed n.1 es)⟩
termination_by Element.sizeAll es
decreasing_by exact sizeAll_childrenNamed_lt (List.mem_eraseDups.mp n.2)

def gatherChild (es : List Element) (name : String) : Summary :=
  gather name (childCounts name es) (childrenNamed name es)

theorem gather_eq (name : String) (counts : List Int) (es : List Element) :
    gather name counts es =
      ⟨name, counts, es.any isMixed, allTexts es, AttributeSummary.tally (allAttributes es),
        (childNames es).eraseDups.map (gatherChild es)⟩ := by
  rw [gather]
  congr 1
  exact List.attach_map_val (f := gatherChild es)

@[simp] theorem name_gather (name : String) (counts : List Int) (es : List Element) :
    (gather name counts es).name = name := by
  rw [gather_eq]

@[simp] theorem name_gatherChild (es : List Element) (name : String) : (gatherChild es name).name = name :=
  name_gather ..

@[simp] theorem instances_gather (name : String) (counts : List Int) (es : List Element) :
    (gather name counts es).instances = total counts := by
  rw [gather_eq]; rfl

theorem children_gather (name : String) (counts : List Int) (es : List Element) :
    (gather name counts es).children = (childNames es).eraseDups.map (gatherChild es) := by
  rw [gather_eq]

/-! ## Absorbing -/

def joined (parents : Int) (c : Summary) : Option Summary → Summary
  | some d => c.absorb d
  | none => c.absentAfter parents

theorem absorbEach_eq (parents : Int) (others : List Summary) : ∀ cs : List Summary,
    absorbEach parents others cs = cs.map fun c => c.joined parents (find? others c.name)
  | [] => by rw [absorbEach]; rfl
  | c :: cs => by
    rw [absorbEach, absorbEach_eq parents others cs, List.map_cons]
    rfl

theorem absorb_eq (s t : Summary) :
    s.absorb t =
      ⟨s.name, s.counts ++ t.counts, s.mixed || t.mixed, s.texts ++ t.texts,
        AttributeSummary.combineAll s.attributes t.attributes,
        (s.children.map fun c => c.joined t.instances (find? t.children c.name)) ++
          (t.children.filter fun c => !contains s.children c.name).map (absentBefore s.instances)⟩ := by
  cases s
  rw [absorb, absorbEach_eq]; rfl

theorem absentAfter_gatherChild {name : String} {es fs : List Element} (h : name ∉ childNames fs) :
    (gatherChild es name).absentAfter fs.length = gatherChild (es ++ fs) name := by
  unfold gatherChild
  rw [childCounts_append, childrenNamed_append, childCounts_of_absent h, childrenNamed_eq_nil.mpr h,
    List.append_nil, gather_eq, gather_eq]
  rfl

theorem absentBefore_gatherChild {name : String} {es fs : List Element} (h : name ∉ childNames es) :
    (gatherChild fs name).absentBefore es.length = gatherChild (es ++ fs) name := by
  unfold gatherChild
  rw [childCounts_append, childrenNamed_append, childCounts_of_absent h, childrenNamed_eq_nil.mpr h,
    List.nil_append, gather_eq, gather_eq]
  rfl

/-- **Absorbing is joining.** The summaries of two lists of elements give that of the joined list,
with the counts of the first before those of the second. -/
theorem absorb_gather (name other : String) (cs ds : List Int) (es fs : List Element)
    (hc : total cs = es.length) (hd : total ds = fs.length) :
    (gather name cs es).absorb (gather other ds fs) = gather name (cs ++ ds) (es ++ fs) := by
  -- the children, by induction on the elements of the first list
  have key := FirstSeen.merge_family (h := gatherChild (es ++ fs)) (name_gatherChild es) (name_gatherChild fs)
    (joined fs.length) (absentBefore es.length) (childNames es) (childNames fs) ?_ ?_ ?_
  · rw [← childNames_append] at key
    rw [absorb_eq, instances_gather, instances_gather, hc, hd, gather_eq, gather_eq, gather_eq,
      List.any_append, allTexts_append, allAttributes_append, ← AttributeSummary.combineAll_tally, ← key]
    rfl
  · intro n hn _
    have := absorb_gather n n (childCounts n es) (childCounts n fs) (childrenNamed n es) (childrenNamed n fs)
      (total_childCounts n es) (total_childCounts n fs)
    rw [← childCounts_append, ← childrenNamed_append] at this
    exact this
  · intro n _ hn
    exact absentAfter_gatherChild hn
  · intro n _ hn
    exact absentBefore_gatherChild hn
termination_by Element.sizeAll es
decreasing_by exact sizeAll_childrenNamed_lt hn

/-! ## Folding -/

/-- Folding an instance into a summary of `seen` elements is absorbing a summary of that instance. -/
theorem children_fold (s t : Summary) (i : Instance) (seen : Nat) (ht : t.instances = 1)
    (hi : t.children = i.scope) :
    (s.fold seen i).children = (({ s with counts := [(seen : Int)] } : Summary).absorb t).children := by
  rw [absorb_eq, ht, hi]
  have hs : ({ s with counts := [(seen : Int)] } : Summary).instances = seen := by
    simp [instances, total]
  rw [hs]
  rfl

theorem ofElement_eq (e : Element) :
    Instance.ofElement e =
      ⟨e.name, e.attributes, Text.trim e.text, !e.children.isEmpty, ofSiblings e.children⟩ := by
  cases e
  rw [Instance.ofElement]
  rfl

theorem ofElements_eq : ∀ es : List Element, Instance.ofElements es = es.map Instance.ofElement
  | [] => by rw [Instance.ofElements]; rfl
  | e :: es => by rw [Instance.ofElements, ofElements_eq es, List.map_cons]

theorem allTexts_snoc (es : List Element) (e : Element) :
    allTexts (es ++ [e]) = if Text.trim e.text = "" then allTexts es else allTexts es ++ [Text.trim e.text] := by
  rw [allTexts_append]
  by_cases h : Text.trim e.text = "" <;> simp [allTexts, h]

theorem fold_gather (name : String) (cs : List Int) (es : List Element) (e : Element)
    (he : ofSiblings e.children = (childNames [e]).eraseDups.map (gatherChild [e])) :
    (gather name cs es).fold es.length (Instance.ofElement e) = gather name cs (es ++ [e]) := by
  have hch := children_fold (gather name cs es) (gather name [1] [e]) (Instance.ofElement e) es.length
    (by rw [instances_gather]; rfl) (by rw [children_gather, ofElement_eq, he])
  have hg : ({ gather name cs es with counts := [(es.length : Int)] } : Summary) =
      gather name [(es.length : Int)] es := by
    rw [gather_eq, gather_eq]
  rw [hg, absorb_gather _ _ _ _ _ _ (by simp [total]) (by rfl), children_gather] at hch
  have hf : (gather name cs es).fold es.length (Instance.ofElement e) =
      ⟨name, cs, es.any isMixed || isMixed e,
        if Text.trim e.text = "" then allTexts es else allTexts es ++ [Text.trim e.text],
        e.attributes.foldl (fun as a => AttributeSummary.record as a.1 a.2)
          (AttributeSummary.tally (allAttributes es)),
        ((gather name cs es).fold es.length (Instance.ofElement e)).children⟩ := by
    rw [gather_eq, ofElement_eq]
    rfl
  rw [hf, hch, gather_eq name cs, allTexts_snoc, AttributeSummary.foldl_record_tally, List.any_append,
    allAttributes_append]
  simp [allAttributes]

theorem foldAll_gather (name : String) (cs : List Int) : ∀ (fs es : List Element),
    (∀ f ∈ fs, ofSiblings f.children = (childNames [f]).eraseDups.map (gatherChild [f])) →
    foldAll (gather name cs es) es.length (fs.map Instance.ofElement) = gather name cs (es ++ fs)
  | [], es, _ => by rw [List.append_nil]; rfl
  | f :: fs, es, h => by
    have ih := foldAll_gather name cs fs (es ++ [f]) fun g hg => h g (List.mem_cons_of_mem _ hg)
    rw [List.length_append, List.append_assoc] at ih
    rw [List.map_cons, foldAll, fold_gather name cs es f (h f (List.mem_cons_self ..))]
    exact ih

theorem ofGroup_eq_gather (name : String) (es : List Element)
    (h : ∀ e ∈ es, ofSiblings e.children = (childNames [e]).eraseDups.map (gatherChild [e])) :
    ofGroup name (es.map Instance.ofElement) = gather name [(es.length : Int)] es := by
  have h0 : (⟨name, [(es.length : Int)], false, [], [], []⟩ : Summary) = gather name [(es.length : Int)] [] := by
    rw [gather_eq]; rfl
  rw [ofGroup, List.length_map, h0]
  exact foldAll_gather name _ es [] h

/-- The children of one element, as siblings and as what is below it. -/
theorem gathered_children (e : Element) :
    ((e.children.map (·.name)).eraseDups.map fun n =>
        gather n [((named n e.children).length : Int)] (named n e.children)) =
      (childNames [e]).eraseDups.map (gatherChild [e]) := by
  rw [childNames, List.flatMap_singleton]
  refine List.map_congr_left fun n _ => ?_
  simp only [gatherChild, childCounts, childrenNamed, List.flatMap_singleton, List.map_singleton]

/-- Siblings are gathered name by name, each group with one count, its size. -/
theorem ofSiblings_eq (es : List Element) :
    ofSiblings es =
      (es.map (·.name)).eraseDups.map fun n => gather n [((named n es).length : Int)] (named n es) := by
  -- what is below each of them, by induction
  have hsub : ∀ e ∈ es, ofSiblings e.children = (childNames [e]).eraseDups.map (gatherChild [e]) := by
    intro e he
    rw [ofSiblings_eq e.children]
    exact gathered_children e
  have hnames : (es.map Instance.ofElement).map Instance.name = es.map (·.name) := by
    rw [List.map_map]
    exact List.map_congr_left fun e _ => by rw [Function.comp, ofElement_eq]
  rw [ofSiblings, ofInstances, ofElements_eq, hnames]
  refine List.map_congr_left fun n _ => ?_
  rw [← ofGroup_eq_gather n (named n es) fun e he => hsub e (mem_named.mp he).1, List.filter_map]
  congr 2
  exact List.filter_congr fun e _ => by rw [Function.comp, ofElement_eq]
termination_by Element.sizeAll es
decreasing_by exact sizeAll_children_lt he

theorem scope_eq (e : Element) : ofSiblings e.children = (childNames [e]).eraseDups.map (gatherChild [e]) := by
  rw [ofSiblings_eq]
  exact gathered_children e

end Summary

end XmlShape
