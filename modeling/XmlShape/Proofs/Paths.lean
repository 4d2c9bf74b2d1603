import XmlShape.Proofs.Carriers
import XmlShape.Proofs.Corpus
import XmlShape.Session

/-! # Summaries at paths

The elements at a path are those that a walk through the documents meets there. A corpus has a
summary at a path exactly where there are such elements, and the summary is theirs
(`summaryAt_describes`). -/

namespace XmlShape

namespace Element

mutual
def places : Element → List (List String × Element)
  | ⟨name, attributes, children, text, namespaces⟩ =>
    ([name], ⟨name, attributes, children, text, namespaces⟩) ::
      (placesAll children).map fun p => (name :: p.1, p.2)

def placesAll : List Element → List (List String × Element)
  | [] => []
  | e :: es => places e ++ placesAll es
end

def instancesAt (roots : List Element) (path : List String) : List Element :=
  ((placesAll roots).filter fun p => p.1 == path).map (·.2)

def under (es : List Element) (path : List String) : List Element :=
  path.foldl (fun es n => childrenNamed n es) es

theorem places_eq (e : Element) :
    places e = ([e.name], e) :: (placesAll e.children).map fun p => (e.name :: p.1, p.2) := by
  cases e; rw [places]

theorem mem_instancesAt {roots : List Element} {path : List String} {e : Element} :
    e ∈ instancesAt roots path ↔ (path, e) ∈ placesAll roots := by
  simp [instancesAt]

theorem instancesAt_cons_list (e : Element) (es : List Element) (path : List String) :
    instancesAt (e :: es) path = instancesAt [e] path ++ instancesAt es path := by
  simp only [instancesAt, placesAll, List.filter_append, List.map_append, List.append_nil]

theorem instancesAt_singleton_nil (e : Element) : instancesAt [e] [] = [] := by
  have h : ∀ p ∈ places e, (p.1 == []) = false := by
    intro p hp
    rw [places_eq] at hp
    rcases List.mem_cons.mp hp with rfl | hp
    · rfl
    · obtain ⟨q, _, rfl⟩ := List.mem_map.mp hp
      rfl
  have hs : placesAll [e] = places e := List.append_nil _
  rw [instancesAt, hs, List.filter_eq_nil_iff.mpr fun p hp => by simp [h p hp], List.map_nil]

theorem instancesAt_nil : ∀ es : List Element, instancesAt es [] = []
  | [] => rfl
  | e :: es => by
    rw [instancesAt_cons_list, instancesAt_singleton_nil, instancesAt_nil es]; rfl

/-- In a single tree only paths that begin with its name lead anywhere. -/
theorem instancesAt_singleton (e : Element) (n : String) (path : List String) :
    instancesAt [e] (n :: path) =
      if e.name = n then (if path = [] then [e] else instancesAt e.children path) else [] := by
  have hbelow : instancesAt [e] (n :: path) =
      (if e.name = n ∧ path = [] then [e] else []) ++ if e.name = n then instancesAt e.children path else [] := by
    simp only [instancesAt, placesAll, List.append_nil, places_eq e, List.filter_cons, List.filter_map]
    by_cases hn : e.name = n
    · subst hn
      by_cases hp : path = []
      · subst hp; simp [Function.comp_def]
      · simp [Function.comp_def, hp]
    · simp [Function.comp_def, hn]
  rw [hbelow]
  by_cases hn : e.name = n
  · by_cases hp : path = []
    · simp [hn, hp, instancesAt_nil]
    · simp [hn, hp]
  · simp [hn]

theorem under_flatMap {α : Type} (f : α → List Element) : ∀ (path : List String) (xs : List α),
    under (xs.flatMap f) path = xs.flatMap fun x => under (f x) path
  | [], _ => rfl
  | n :: path, xs => by
    have h : childrenNamed n (xs.flatMap f) = xs.flatMap fun x => childrenNamed n (f x) :=
      List.flatMap_assoc
    exact (congrArg (under · path) h).trans (under_flatMap _ path xs)

theorem instancesAt_cons (n : String) (path : List String) : ∀ es : List Element,
    instancesAt es (n :: path) =
      (named n es).flatMap fun e => if path = [] then [e] else instancesAt e.children path
  | [] => rfl
  | e :: es => by
    rw [instancesAt_cons_list, instancesAt_singleton, instancesAt_cons n path es, named_cons]
    by_cases hn : e.name = n <;> simp [hn]

theorem under_nil (path : List String) : under [] path = [] :=
  under_flatMap (fun e : Element => [e]) path []

/-- A path leads from the roots of its first name down, name by name. -/
theorem instancesAt_eq_under : ∀ (path : List String) (roots : List Element) (n : String),
    instancesAt roots (n :: path) = under (named n roots) path
  | [], roots, n => by
    rw [instancesAt_cons]
    exact List.flatMap_singleton' _
  | k :: path, roots, n => by
    have hstep : ∀ e : Element, (if k :: path = [] then [e] else instancesAt e.children (k :: path)) =
        under (named k e.children) path :=
      fun e => by rw [if_neg (List.cons_ne_nil k path), instancesAt_eq_under path]
    rw [instancesAt_cons]
    simp only [hstep]
    exact (under_flatMap _ path _).symm

theorem instancesAt_snoc (roots : List Element) (n : String) (path : List String) (name : String) :
    instancesAt roots (n :: path ++ [name]) = childrenNamed name (instancesAt roots (n :: path)) := by
  rw [List.cons_append, instancesAt_eq_under, instancesAt_eq_under, under, List.foldl_append]
  rfl

theorem placesAll_eq : ∀ es : List Element, placesAll es = es.flatMap places
  | [] => rfl
  | e :: es => by rw [placesAll, placesAll_eq es, List.flatMap_cons]

theorem placesAll_append (es fs : List Element) : placesAll (es ++ fs) = placesAll es ++ placesAll fs := by
  simp only [placesAll_eq, List.flatMap_append]

theorem instancesAt_append (roots others : List Element) (path : List String) :
    instancesAt (roots ++ others) path = instancesAt roots path ++ instancesAt others path := by
  simp only [instancesAt, placesAll_append, List.filter_append, List.map_append]

theorem distinct_under : ∀ (path : List String) {es : List Element}, (∀ e ∈ es, Distinct e) →
    ∀ e ∈ under es path, Distinct e
  | [], _, h => h
  | _ :: path, _, h => distinct_under path (Distinct.childrenNamed h)

theorem distinct_instancesAt {roots : List Element} (h : ∀ r ∈ roots, Distinct r) (path : List String) :
    ∀ e ∈ instancesAt roots path, Distinct e := by
  cases path with
  | nil => rw [instancesAt_nil]; simp
  | cons n path =>
    rw [instancesAt_eq_under]
    exact distinct_under path fun e he => h e (mem_named.mp he).1

end Element

namespace Summary

open Element

def summaryAt (corpus : List Summary) : List String → Option Summary
  | [] => none
  | n :: path => (find? corpus n).bind fun s => Session.descend? s path

/-- What a summary says when it stands for the elements `es`, all of one path. -/
structure Describes (s : Summary) (name : String) (counts : List Int) (es : List Element) : Prop where
  name_eq : s.name = name
  counts_eq : s.counts = counts
  /-- The names of attributes but for namespace declarations, in first-seen order. -/
  attributes : s.attributes.map (·.name) =
    (es.flatMap fun e => (properAttributes e.attributes).map (·.1)).eraseDups
  values : ∀ a ∈ s.attributes, ∀ v, v ∈ a.values ↔ ∃ e ∈ es, (a.name, v) ∈ e.attributes
  count : ∀ a ∈ s.attributes, a.count = (es.countP (carries a.name) : Int)
  texts : s.texts = (es.map fun e => Text.trim e.text).filter (· != "")
  mixed : s.mixed = true ↔ ∃ e ∈ es, Text.trim e.text ≠ "" ∧ e.children ≠ []
  children : s.children.map (·.name) = (es.flatMap fun e => e.children.map (·.name)).eraseDups

theorem describes_gather (name : String) (counts : List Int) {es : List Element} (h : ∀ e ∈ es, Distinct e) :
    (gather name counts es).Describes name counts es := by
  rw [gather_eq]
  exact
    { name_eq := rfl
      counts_eq := rfl
      attributes := by
        rw [AttributeSummary.map_name_tally, allAttributes, properAttributes_flatMap, List.map_flatMap]
      values := fun a ha v => AttributeSummary.mem_values_of_mem_tally ha
      count := fun a ha => AttributeSummary.count_of_mem_tally ha fun e he => (h e he).attributes
      texts := rfl
      mixed := by simp [isMixed]
      children := FirstSeen.map_key_family (name_gatherChild es) _ }

theorem descend?_gather : ∀ (path : List String) (name last : String) (counts : List Int) (es : List Element),
    Session.descend? (gather name counts es) (path ++ [last]) =
      if last ∈ childNames (under es path) then some (gatherChild (under es path) last) else none
  | [], name, last, counts, es => by
    rw [List.nil_append, Session.descend?, child?, children_gather, find?,
      FirstSeen.find?_family (name_gatherChild es)]
    simp only [List.mem_eraseDups]
    by_cases h : last ∈ childNames es
    · simp [h, under, Session.descend?]
    · simp [h, under]
  | n :: path, name, last, counts, es => by
    rw [List.cons_append, Session.descend?, child?, children_gather, find?,
      FirstSeen.find?_family (name_gatherChild es)]
    simp only [List.mem_eraseDups]
    by_cases h : n ∈ childNames es
    · simp only [h, if_true, Option.bind_some]
      exact descend?_gather path n last _ _
    · -- nothing is found below a name that does not occur
      have : under es (n :: path) = [] := by
        rw [under, List.foldl_cons, childrenNamed_eq_nil.mpr h]
        exact under_nil path
      rw [this, if_neg h, if_neg (by simp [childNames])]
      rfl

theorem find?_ofDocuments (roots : List Element) (name : String) :
    find? (ofDocuments roots) name = if named name roots = [] then none else some (gatherRoots roots name) := by
  rw [ofDocuments_eq, find?, FirstSeen.find?_family (name_gatherRoots roots)]
  simp only [List.mem_eraseDups, named_eq_nil, ite_not]

/-- The counts of a name below a path: one for each root, or one for each element above. -/
def countsAt (roots : List Element) (above : List String) (name : String) : List Int :=
  if above = [] then List.replicate (instancesAt roots [name]).length 1
  else (instancesAt roots above).map fun e => ((named name e.children).length : Int)

/-- A corpus has a summary exactly at the paths of its elements, and there it is gathered from them. -/
theorem summaryAt_ofDocuments (roots : List Element) (above : List String) (name : String) :
    summaryAt (ofDocuments roots) (above ++ [name]) =
      if instancesAt roots (above ++ [name]) = [] then none
      else some (gather name (countsAt roots above name) (instancesAt roots (above ++ [name]))) := by
  cases above with
  | nil =>
    have hi : instancesAt roots [name] = named name roots := instancesAt_eq_under [] roots name
    rw [List.nil_append, summaryAt, find?_ofDocuments, countsAt, if_pos rfl, hi]
    by_cases h : named name roots = []
    · simp [h]
    · simp [h, Session.descend?, gatherRoots]
  | cons n path =>
    have hi := instancesAt_eq_under path roots n
    rw [instancesAt_snoc, List.cons_append, summaryAt, find?_ofDocuments, countsAt, if_neg (List.cons_ne_nil n path),
      hi]
    by_cases h : named n roots = []
    · rw [if_pos h, h, under_nil]; rfl
    · rw [if_neg h, Option.bind_some, gatherRoots, descend?_gather]
      simp only [childrenNamed_eq_nil, ite_not]
      rfl

theorem exists_snoc_of_summaryAt {corpus : List Summary} {path : List String} {s : Summary}
    (h : summaryAt corpus path = some s) : ∃ above name, path = above ++ [name] := by
  rcases List.eq_nil_or_concat' path with rfl | hpath
  · cases h
  · exact hpath

theorem isSome_summaryAt_ofDocuments (roots : List Element) (path : List String) :
    (summaryAt (ofDocuments roots) path).isSome ↔ instancesAt roots path ≠ [] := by
  rcases List.eq_nil_or_concat' path with rfl | ⟨above, name, rfl⟩
  · simp [summaryAt, instancesAt_nil]
  · rw [summaryAt_ofDocuments]
    split <;> simp_all

theorem eq_gather_of_summaryAt {roots : List Element} {above : List String} {name : String} {s : Summary}
    (h : summaryAt (ofDocuments roots) (above ++ [name]) = some s) :
    s = gather name (countsAt roots above name) (instancesAt roots (above ++ [name])) := by
  rw [summaryAt_ofDocuments] at h
  split at h
  · cases h
  · exact (Option.some.inj h).symm

theorem countsAt_append (roots others : List Element) (above : List String) (name : String) :
    countsAt (roots ++ others) above name = countsAt roots above name ++ countsAt others above name := by
  unfold countsAt
  split
  · rw [instancesAt_append, List.length_append, List.replicate_add]
  · rw [instancesAt_append, List.map_append]

theorem nonneg_countsAt (roots : List Element) (above : List String) (name : String) :
    ∀ n ∈ countsAt roots above name, 0 ≤ n := by
  intro n hn
  unfold countsAt at hn
  split at hn
  · rw [List.eq_of_mem_replicate hn]; decide
  · exact nonneg_childCounts name _ n hn

theorem total_countsAt (roots : List Element) (above : List String) (name : String) :
    total (countsAt roots above name) = ((instancesAt roots (above ++ [name])).length : Int) := by
  cases above with
  | nil => exact total_replicate_one _
  | cons n path =>
    rw [countsAt, if_neg (List.cons_ne_nil n path), instancesAt_snoc]
    exact total_childCounts name _

/-- **Summaries path by path.** A corpus has a summary at a path exactly if some element is there. It
describes those elements: a root is counted once for each document, and any other name once for each
element above it, as often as that element has it. -/
theorem summaryAt_describes (roots : List Element) (h : ∀ r ∈ roots, Distinct r) :
    (ofDocuments roots).map (·.name) = (roots.map (·.name)).eraseDups ∧
    ∀ (above : List String) (name : String),
      ((summaryAt (ofDocuments roots) (above ++ [name])).isSome ↔ instancesAt roots (above ++ [name]) ≠ []) ∧
      ∀ s, summaryAt (ofDocuments roots) (above ++ [name]) = some s →
        s.Describes name
          (if above = [] then List.replicate (instancesAt roots [name]).length 1
            else (instancesAt roots above).map fun e => ((named name e.children).length : Int))
          (instancesAt roots (above ++ [name])) := by
  refine ⟨?_, fun above name => ?_⟩
  · rw [ofDocuments_eq]
    exact FirstSeen.map_key_family (name_gatherRoots roots) _
  rw [summaryAt_ofDocuments]
  by_cases hi : instancesAt roots (above ++ [name]) = []
  · simp [hi]
  refine ⟨by simp [hi], fun s hs => ?_⟩
  rw [if_neg hi, Option.some.injEq] at hs
  subst hs
  exact describes_gather name _ (distinct_instancesAt h _)

/-- A name that only the second of two documents has, twice. -/
theorem summaryAt_describes_late :
    ∃ s, summaryAt (ofDocuments
        [⟨"a", [], [], "x", []⟩, ⟨"a", [], [⟨"b", [("k", "1")], [], "", []⟩, ⟨"b", [], [], "y", []⟩], "", []⟩])
        ["a", "b"] = some s ∧
      s.Describes "b" [0, 2] [⟨"b", [("k", "1")], [], "", []⟩, ⟨"b", [], [], "y", []⟩] := by
  have hd : ∀ r ∈ [(⟨"a", [], [], "x", []⟩ : Element),
      ⟨"a", [], [⟨"b", [("k", "1")], [], "", []⟩, ⟨"b", [], [], "y", []⟩], "", []⟩], Distinct r := by
    simp only [List.forall_mem_cons]
    exact ⟨.leaf (by decide), .intro (by decide) (by simp [Distinct.leaf]), by simp⟩
  obtain ⟨hsome, hall⟩ := (summaryAt_describes _ hd).2 ["a"] "b"
  obtain ⟨s, hs⟩ := Option.isSome_iff_exists.mp (hsome.mpr (List.cons_ne_nil _ _))
  exact ⟨s, hs, hall s hs⟩

end Summary

end XmlShape
