import Mathlib.Data.List.Perm.Subperm
import XmlShape.Attribute
import XmlShape.Proofs.FirstSeen

/-! # Tallies of attributes

Recording attributes one by one and combining two records both give the tally of everything seen:
each name with the set of its values and the number of times it was seen. -/

namespace XmlShape

namespace ValueSet

theorem nodup_toList (s : ValueSet) : s.toList.Nodup :=
  s.ascending.imp fun h e => by subst e; exact String.lt_irrefl _ h

theorem ext_mem {s t : ValueSet} (h : ∀ v, v ∈ s ↔ v ∈ t) : s = t := by
  have hp : s.toList.Perm t.toList :=
    (List.perm_ext_iff_of_nodup s.nodup_toList t.nodup_toList).mpr h
  have he : s.toList = t.toList :=
    hp.eq_of_pairwise (fun a b _ _ hab hba => absurd hba (String.lt_asymm hab))
      s.ascending t.ascending
  cases s; cases t; cases he; rfl

theorem mem_foldl_insert {v : String} : ∀ {vs : List String} {s : ValueSet},
    v ∈ vs.foldl insert s ↔ v ∈ s ∨ v ∈ vs
  | [], s => by simp
  | w :: vs, s => by
    rw [List.foldl_cons, mem_foldl_insert, mem_insert, List.mem_cons]
    constructor
    · rintro ((h | h) | h)
      · exact Or.inr (Or.inl h)
      · exact Or.inl h
      · exact Or.inr (Or.inr h)
    · rintro (h | h | h)
      · exact Or.inl (Or.inr h)
      · exact Or.inl (Or.inl h)
      · exact Or.inr h

theorem not_mem_empty {v : String} : v ∉ empty :=
  List.not_mem_nil

theorem mem_ofList {v : String} {vs : List String} : v ∈ ofList vs ↔ v ∈ vs := by
  rw [ofList, mem_foldl_insert]
  exact or_iff_right not_mem_empty

theorem mem_union {v : String} {s t : ValueSet} : v ∈ s.union t ↔ v ∈ s ∨ v ∈ t :=
  mem_foldl_insert

theorem union_ofList (vs ws : List String) : (ofList vs).union (ofList ws) = ofList (vs ++ ws) :=
  ext_mem fun v => by rw [mem_union, mem_ofList, mem_ofList, mem_ofList, List.mem_append]

theorem size_ofList_le (vs : List String) : (ofList vs).size ≤ vs.length :=
  ((nodup_toList _).subperm fun _ hv => mem_ofList.mp hv).length_le

theorem one_le_size {s : ValueSet} {v : String} (h : v ∈ s) : 1 ≤ s.size :=
  List.length_pos_of_mem h

end ValueSet

theorem properAttributes_append (as bs : List (String × String)) :
    properAttributes (as ++ bs) = properAttributes as ++ properAttributes bs :=
  List.filter_append ..

theorem properAttributes_flatMap {α : Type} (f : α → List (String × String)) (xs : List α) :
    properAttributes (xs.flatMap f) = xs.flatMap fun x => properAttributes (f x) :=
  List.filter_flatMap ..

namespace AttributeSummary

def valuesOf (name : String) (as : List (String × String)) : List String :=
  (as.filter fun a => a.1 == name).map (·.2)

def ofValues (name : String) (as : List (String × String)) : AttributeSummary :=
  ⟨name, ValueSet.ofList (valuesOf name as), (valuesOf name as).length⟩

/-- What a list of attributes says of each name in it, namespace declarations left out. -/
def tally (as : List (String × String)) : List AttributeSummary :=
  ((properAttributes as).map (·.1)).eraseDups.map fun name => ofValues name (properAttributes as)

theorem valuesOf_append (name : String) (as bs : List (String × String)) :
    valuesOf name (as ++ bs) = valuesOf name as ++ valuesOf name bs := by
  simp only [valuesOf, List.filter_append, List.map_append]

theorem mem_valuesOf {name v : String} {as : List (String × String)} :
    v ∈ valuesOf name as ↔ (name, v) ∈ as := by
  simp only [valuesOf, List.mem_map, List.mem_filter, beq_iff_eq]
  constructor
  · rintro ⟨⟨n, w⟩, ⟨ha, rfl⟩, rfl⟩
    exact ha
  · intro h
    exact ⟨(name, v), ⟨h, rfl⟩, rfl⟩

theorem valuesOf_eq_nil {name : String} {as : List (String × String)} (h : name ∉ as.map (·.1)) :
    valuesOf name as = [] := by
  refine List.eq_nil_iff_forall_not_mem.mpr fun v hv => h ?_
  exact List.mem_map.mpr ⟨(name, v), mem_valuesOf.mp hv, rfl⟩

theorem valuesOf_snoc (as : List (String × String)) (a : String × String) :
    valuesOf a.1 (as ++ [a]) = valuesOf a.1 as ++ [a.2] := by
  simp [valuesOf]

theorem valuesOf_snoc_of_ne (as : List (String × String)) (a : String × String) {name : String} (h : name ≠ a.1) :
    valuesOf name (as ++ [a]) = valuesOf name as := by
  simp [valuesOf, Ne.symm h]

theorem combine_ofValues (name : String) (as bs : List (String × String)) :
    (ofValues name as).combine (ofValues name bs) = ofValues name (as ++ bs) := by
  simp only [combine, ofValues, valuesOf_append, ValueSet.union_ofList, List.length_append,
    Int.natCast_add]

theorem map_name_tally (as : List (String × String)) :
    (tally as).map (·.name) = ((properAttributes as).map (·.1)).eraseDups :=
  FirstSeen.map_key_family (fun _ => rfl) _

def joined (a : AttributeSummary) : Option AttributeSummary → AttributeSummary
  | some b => a.combine b
  | none => a

theorem combineAll_eq (as bs : List AttributeSummary) :
    combineAll as bs =
      (as.map fun a => a.joined (find? bs a.name)) ++ bs.filter fun b => !contains as b.name :=
  rfl

/-- Combining two tallies gives the tally of both lists. -/
theorem combineAll_tally (as bs : List (String × String)) :
    combineAll (tally as) (tally bs) = tally (as ++ bs) := by
  have hname : ∀ (as : List (String × String)) n, (ofValues n (properAttributes as)).name = n := fun _ _ => rfl
  have key := FirstSeen.merge_family (h := fun n => ofValues n (properAttributes (as ++ bs))) (hname as) (hname bs)
    joined id ((properAttributes as).map (·.1)) ((properAttributes bs).map (·.1)) ?_ ?_ ?_
  · rw [← List.map_append, ← properAttributes_append, List.map_id] at key
    rw [combineAll_eq]
    exact key
  · intro n _ _
    simp only [joined, combine_ofValues, properAttributes_append]
  · intro n _ hn
    simp only [joined, ofValues, properAttributes_append, valuesOf_append, valuesOf_eq_nil hn, List.append_nil]
  · intro n _ hn
    simp only [id, ofValues, properAttributes_append, valuesOf_append, valuesOf_eq_nil hn, List.nil_append]

theorem addValue_eq_update (name value : String) : ∀ as : List AttributeSummary,
    addValue name value as = FirstSeen.update (·.name) name
      (fun a => ⟨a.name, a.values.insert value, a.count + 1⟩) ⟨name, ValueSet.empty.insert value, 1⟩ as
  | [] => rfl
  | a :: as => by rw [addValue, FirstSeen.update, addValue_eq_update name value as]

theorem record_tally (as : List (String × String)) (name value : String) :
    record (tally as) name value = tally (as ++ [(name, value)]) := by
  unfold record
  by_cases hn : isNamespaceDeclaration name = true
  · have : properAttributes (as ++ [(name, value)]) = properAttributes as := by
      rw [properAttributes_append]; simp [properAttributes, hn]
    rw [if_pos hn, tally, tally, this]
  · have hproper : properAttributes (as ++ [(name, value)]) = properAttributes as ++ [(name, value)] := by
      rw [properAttributes_append]; simp [properAttributes, hn]
    rw [if_neg hn, addValue_eq_update, tally, tally, hproper, List.map_append, List.map_singleton,
      FirstSeen.eraseDups_snoc]
    rw [FirstSeen.update_family (g := fun n => ofValues n (properAttributes as ++ [(name, value)])) (fun _ => rfl)
      (FirstSeen.nodup_eraseDups _) (fun _ => ?_) (fun h => ?_) (fun m hm => ?_)]
    · simp only [List.mem_eraseDups]
    · simp only [ofValues, valuesOf_snoc _ (name, value), ValueSet.ofList, List.foldl_append, List.length_append]
      rfl
    · simp only [ofValues, valuesOf_snoc _ (name, value), valuesOf_eq_nil (mt List.mem_eraseDups.mpr h)]
      rfl
    · simp only [ofValues, valuesOf_snoc_of_ne _ (name, value) hm]

theorem foldl_record_tally : ∀ (as bs : List (String × String)),
    bs.foldl (fun ss a => record ss a.1 a.2) (tally as) = tally (as ++ bs)
  | as, [] => by rw [List.append_nil]; rfl
  | as, b :: bs => by
    rw [List.foldl_cons, record_tally, foldl_record_tally, List.append_assoc]; rfl

/-! ## What a tally holds -/

theorem mem_tally {a : AttributeSummary} {as : List (String × String)} (h : a ∈ tally as) :
    a.name ∈ (properAttributes as).map (·.1) ∧ a = ofValues a.name (properAttributes as) := by
  obtain ⟨n, hn, rfl⟩ := List.mem_map.mp h
  exact ⟨List.mem_eraseDups.mp hn, rfl⟩

theorem find?_tally (as : List (String × String)) (name : String) :
    find? (tally as) name =
      if name ∈ (properAttributes as).map (·.1) then some (ofValues name (properAttributes as)) else none := by
  rw [find?, tally, FirstSeen.find?_family (fun _ => rfl)]
  simp only [List.mem_eraseDups]

theorem find?_tally_eq_some {as : List (String × String)} {name : String} {a : AttributeSummary} :
    find? (tally as) name = some a ↔
      name ∈ (properAttributes as).map (·.1) ∧ a = ofValues name (properAttributes as) := by
  rw [find?_tally]
  split
  · rename_i h
    simp only [h, true_and, Option.some.injEq, eq_comm]
  · rename_i h
    simp only [h, false_and, reduceCtorEq]

theorem find?_tally_eq_none {as : List (String × String)} {name : String} :
    find? (tally as) name = none ↔ name ∉ (properAttributes as).map (·.1) := by
  rw [find?_tally]
  split <;> simp_all

/-- Every name has a value, and no more values than it was seen. -/
theorem bounds_of_mem_tally {a : AttributeSummary} {as : List (String × String)} (h : a ∈ tally as) :
    1 ≤ a.values.size ∧ (a.values.size : Int) ≤ a.count := by
  obtain ⟨hn, ho⟩ := mem_tally h
  obtain ⟨⟨n, v⟩, hx, hxn⟩ := List.mem_map.mp hn
  have hv : v ∈ valuesOf a.name (properAttributes as) := mem_valuesOf.mpr (hxn ▸ hx)
  rw [ho]
  exact ⟨ValueSet.one_le_size (ValueSet.mem_ofList.mpr hv), Int.ofNat_le.mpr (ValueSet.size_ofList_le _)⟩

end AttributeSummary

end XmlShape
