import Mathlib.Data.List.Nodup

/-! # Names in first-seen order

Attributes and children are kept in the order in which their names were first seen, each with what
is known of its name. Two such families merge by name: those of the first with what the second adds,
then the new ones of the second. The result is the family over the joined names. -/

namespace XmlShape.FirstSeen

section
variable {α : Type} [BEq α] [LawfulBEq α]

theorem nodup_eraseDups : ∀ xs : List α, xs.eraseDups.Nodup
  | [] => List.nodup_nil
  | x :: xs => by
    rw [List.eraseDups_cons, List.nodup_cons]
    refine ⟨fun h => ?_, nodup_eraseDups _⟩
    have := (List.mem_filter.mp (List.mem_eraseDups.mp h)).2
    simp at this
termination_by xs => xs.length
decreasing_by exact Nat.lt_succ_of_le (List.length_filter_le _ _)

theorem eraseDups_perm {xs ys : List α} (h : xs.Perm ys) : xs.eraseDups.Perm ys.eraseDups := by
  refine (List.perm_ext_iff_of_nodup (nodup_eraseDups xs) (nodup_eraseDups ys)).mpr fun x => ?_
  rw [List.mem_eraseDups, List.mem_eraseDups, h.mem_iff]

theorem filter_eraseDups (p : α → Bool) : ∀ xs : List α, (xs.filter p).eraseDups = xs.eraseDups.filter p
  | [] => rfl
  | x :: xs => by
    have ih := filter_eraseDups p (xs.filter fun y => !y == x)
    rw [List.eraseDups_cons, List.filter_cons, List.filter_cons]
    split
    · rw [List.eraseDups_cons, ← ih, List.filter_filter, List.filter_filter]
      simp only [Bool.and_comm]
    · rename_i hx
      rw [← ih, List.filter_filter]
      congr 1
      -- what `p` keeps is not `x` anyway
      refine List.filter_congr fun y _ => ?_
      by_cases hy : y = x
      · subst hy; simp [hx]
      · simp [hy]
termination_by xs => xs.length
decreasing_by exact Nat.lt_succ_of_le (List.length_filter_le _ _)

theorem eraseDups_of_nodup {xs : List α} (h : xs.Nodup) : xs.eraseDups = xs := by
  induction xs with
  | nil => rfl
  | cons x xs ih =>
    obtain ⟨hx, hxs⟩ := List.nodup_cons.mp h
    have hothers : ∀ y ∈ xs, (!y == x) = true := fun y hy => by
      simpa using ne_of_mem_of_not_mem hy hx
    rw [List.eraseDups_cons, List.filter_eq_self.mpr hothers, ih hxs]

/-- Names stand in the order of their first places. -/
theorem pairwise_idxOf_eraseDups (xs : List α) : xs.eraseDups.Pairwise fun a b => xs.idxOf a < xs.idxOf b := by
  induction xs with
  | nil => exact List.Pairwise.nil
  | cons x xs ih =>
    have hne : ∀ y ∈ xs.eraseDups.filter fun y => !y == x, x ≠ y := fun y hy =>
      Ne.symm (by simpa using (List.mem_filter.mp hy).2)
    rw [List.eraseDups_cons, filter_eraseDups, List.pairwise_cons]
    refine ⟨fun y hy => ?_, (ih.filter _).imp_of_mem fun {a b} ha hb hab => ?_⟩
    · rw [List.idxOf_cons_self, List.idxOf_cons_ne _ (hne y hy)]
      exact Nat.succ_pos _
    · rw [List.idxOf_cons_ne _ (hne a ha), List.idxOf_cons_ne _ (hne b hb)]
      exact Nat.succ_lt_succ hab

/-- The names of a joined list: those of the first part, then the new ones of the second. -/
theorem eraseDups_append (xs ys : List α) :
    (xs ++ ys).eraseDups = xs.eraseDups ++ ys.eraseDups.filter fun y => !xs.contains y := by
  rw [List.eraseDups_append, List.removeAll, filter_eraseDups]

theorem eraseDups_snoc [DecidableEq α] (xs : List α) (x : α) :
    (xs ++ [x]).eraseDups = if x ∈ xs then xs.eraseDups else xs.eraseDups ++ [x] := by
  rw [eraseDups_append, List.eraseDups_cons]
  by_cases h : x ∈ xs <;> simp [h]

end

/-- The groups of the members of one name hold all members. -/
theorem flatMap_groups_perm {α : Type} (key : α → String) (xs : List α) :
    ((xs.map key).eraseDups.flatMap fun n => xs.filter fun x => key x == n).Perm xs := by
  match xs with
  | [] => exact List.Perm.refl []
  | x :: xs =>
    have ih := flatMap_groups_perm key (xs.filter fun y => !(key y == key x))
    have hrest : ∀ n ∈ ((xs.filter fun y => !(key y == key x)).map key).eraseDups,
        ((x :: xs).filter fun y => key y == n) =
          (xs.filter fun y => !(key y == key x)).filter fun y => key y == n := by
      intro n hn
      obtain ⟨y, hy, rfl⟩ := List.mem_map.mp (List.mem_eraseDups.mp hn)
      have hne : key y ≠ key x := by simpa using (List.mem_filter.mp hy).2
      rw [List.filter_cons, List.filter_filter, if_neg (by simpa using Ne.symm hne)]
      refine List.filter_congr fun z _ => ?_
      by_cases hz : key z = key y
      · simp [hz, hne]
      · simp [hz]
    have hothers : (x :: xs).filter (fun y => !(key y == key x)) = xs.filter fun y => !(key y == key x) := by
      simp
    rw [List.map_cons, List.eraseDups_cons, List.flatMap_cons, List.filter_map]
    refine List.Perm.trans ?_ (List.filter_append_perm (fun y => key y == key x) (x :: xs))
    rw [hothers]
    exact List.Perm.append_left _ ((List.flatMap_congr hrest).symm ▸ ih)
termination_by xs.length
decreasing_by exact Nat.lt_succ_of_le (List.length_filter_le _ _)

/-! ## Look-up by name -/

section
variable {α : Type} {key : α → String} {as : List α}

theorem isSome_find?_key (n : String) : (as.find? fun a => key a == n).isSome ↔ n ∈ as.map key := by
  simp [List.find?_isSome]

theorem find?_key_of_mem (h : (as.map key).Nodup) {a : α} (ha : a ∈ as) :
    (as.find? fun x => key x == key a) = some a := by
  obtain ⟨b, hb⟩ := Option.isSome_iff_exists.mp ((isSome_find?_key (key a)).mpr (List.mem_map_of_mem ha))
  have hkey : key b = key a := by simpa using List.find?_some hb
  rw [hb, List.inj_on_of_nodup_map h (List.mem_of_find?_eq_some hb) ha hkey]

end

/-! ## Families by name -/

section
variable {α : Type} {key : α → String} {f g h : String → α}
variable (hf : ∀ n, key (f n) = n)
include hf

theorem find?_family (ns : List String) (n : String) :
    (ns.map f).find? (fun a => key a == n) = if n ∈ ns then some (f n) else none := by
  induction ns with
  | nil => rfl
  | cons m ns ih =>
    rw [List.map_cons, List.find?_cons, ih, hf]
    by_cases hm : m = n
    · subst hm; simp
    · have : (m == n) = false := beq_false_of_ne hm
      simp [this, Ne.symm hm]

theorem any_family (ns : List String) (n : String) :
    (ns.map f).any (fun a => key a == n) = ns.contains n := by
  induction ns with
  | nil => rfl
  | cons m ns ih =>
    rw [List.map_cons, List.any_cons, ih, hf, List.contains_cons]
    simp only [Bool.beq_comm (a := m)]

theorem map_key_family (ns : List String) : (ns.map f).map key = ns := by
  rw [List.map_map]
  exact List.map_id'' hf ns

/-- **Merging by name.** `join` takes each member of the first family together with what the second has
under its name, `new` takes over what only the second has. -/
theorem merge_family (hg : ∀ n, key (g n) = n) (join : α → Option α → α) (new : α → α) (ns ms : List String)
    (hboth : ∀ n ∈ ns, n ∈ ms → join (f n) (some (g n)) = h n)
    (hleft : ∀ n ∈ ns, n ∉ ms → join (f n) none = h n)
    (hright : ∀ n ∈ ms, n ∉ ns → new (g n) = h n) :
    ((ns.eraseDups.map f).map fun a => join a ((ms.eraseDups.map g).find? fun b => key b == key a)) ++
      ((ms.eraseDups.map g).filter fun b => !(ns.eraseDups.map f).any fun a => key a == key b).map new =
    (ns ++ ms).eraseDups.map h := by
  rw [eraseDups_append, List.map_append]
  congr 1
  · rw [List.map_map]
    refine List.map_congr_left fun n hn => ?_
    have hn' := List.mem_eraseDups.mp hn
    simp only [Function.comp, find?_family hg, hf, List.mem_eraseDups]
    by_cases hm : n ∈ ms
    · rw [if_pos hm]; exact hboth n hn' hm
    · rw [if_neg hm]; exact hleft n hn' hm
  · simp only [any_family hf]
    have hp : (ms.eraseDups.filter fun n => !ns.eraseDups.contains (key (g n))) =
        ms.eraseDups.filter fun n => !ns.contains n :=
      List.filter_congr fun n _ => by
        rw [hg, Bool.eq_iff_iff]; simp
    rw [List.filter_map, List.map_map]
    simp only [Function.comp_def]
    rw [hp]
    refine List.map_congr_left fun n hn => ?_
    obtain ⟨hm, hn⟩ := List.mem_filter.mp hn
    exact hright n (List.mem_eraseDups.mp hm) (by simpa using hn)

end

/-! ## Recording one thing after another -/

/-- Changes the member of a name, or puts a new one at the end. -/
def update {α : Type} (key : α → String) (n : String) (change : α → α) (new : α) : List α → List α
  | [] => [new]
  | a :: as => if key a = n then change a :: as else a :: update key n change new as

theorem update_of_forall_ne {α : Type} {key : α → String} {n : String} (change : α → α) (new : α) :
    ∀ {as : List α}, (∀ a ∈ as, key a ≠ n) → update key n change new as = as ++ [new]
  | [], _ => rfl
  | a :: as, h => by
    obtain ⟨ha, has⟩ := List.forall_mem_cons.mp h
    rw [update, if_neg ha, update_of_forall_ne change new has, List.cons_append]

/-- Members of distinct names that are put in one by one stand in their order. -/
theorem foldl_update_eq_append {α : Type} {key : α → String} : ∀ {as kept : List α}, ((kept ++ as).map key).Nodup →
    as.foldl (fun kept a => update key (key a) (fun _ => a) a kept) kept = kept ++ as
  | [], kept, _ => (List.append_nil kept).symm
  | a :: as, kept, h => by
    have hfresh : ∀ b ∈ kept, key b ≠ key a := fun b hb => by
      rw [List.map_append, List.nodup_append] at h
      exact h.2.2 (key b) (List.mem_map_of_mem hb) (key a) (List.mem_cons_self ..)
    rw [List.append_cons] at h
    rw [List.foldl_cons, update_of_forall_ne _ _ hfresh, foldl_update_eq_append h, List.append_cons kept a as]

theorem update_family {α : Type} {key : α → String} {f g : String → α} (hf : ∀ n, key (f n) = n) {n : String}
    {change : α → α} {new : α} : ∀ {ns : List String}, ns.Nodup → (n ∈ ns → change (f n) = g n) →
    (n ∉ ns → new = g n) → (∀ m, m ≠ n → f m = g m) →
    update key n change new (ns.map f) = (if n ∈ ns then ns else ns ++ [n]).map g
  | [], _, _, hnew, _ => by
    rw [hnew List.not_mem_nil]; rfl
  | m :: ns, hnd, hchange, hnew, hother => by
    obtain ⟨hm, hns⟩ := List.nodup_cons.mp hnd
    rw [List.map_cons, update, hf]
    by_cases hmn : m = n
    · subst hmn
      -- no later member has the name, so all of them stay as they are
      have hrest : ∀ k ∈ ns, f k = g k := fun k hk => hother k fun e => hm (e ▸ hk)
      rw [if_pos rfl, if_pos (List.mem_cons_self ..), hchange (List.mem_cons_self ..), List.map_congr_left hrest,
        List.map_cons]
    · have hmem : n ∈ m :: ns ↔ n ∈ ns := by simp [Ne.symm hmn]
      rw [if_neg hmn, hother m hmn, update_family hf hns (fun h => hchange (hmem.mpr h))
        (fun h => hnew fun hn => h (hmem.mp hn)) hother]
      by_cases hn : n ∈ ns <;> simp [hmem, hn]

/-- **Recording by name.** `f bs` says what is known of each name after `bs`; if each step of a fold brings
the name of one item up to date, the fold gives what is known of all names in the order first seen. -/
theorem foldl_family {α β : Type} {key : α → String} {name : β → String} {f : List β → String → α}
    {change : β → α → α} {new : β → α} {add : List α → β → List α} (hkey : ∀ bs n, key (f bs n) = n)
    (hadd : ∀ as b, add as b = update key (name b) (change b) (new b) as)
    (hchange : ∀ bs b, name b ∈ bs.map name → change b (f bs (name b)) = f (bs ++ [b]) (name b))
    (hnew : ∀ bs b, name b ∉ bs.map name → new b = f (bs ++ [b]) (name b))
    (hother : ∀ bs b n, n ≠ name b → f bs n = f (bs ++ [b]) n) : ∀ bs done : List β,
    bs.foldl add ((done.map name).eraseDups.map (f done)) = ((done ++ bs).map name).eraseDups.map (f (done ++ bs))
  | [], done => by rw [List.append_nil]; rfl
  | b :: bs, done => by
    have hstep : add ((done.map name).eraseDups.map (f done)) b =
        ((done ++ [b]).map name).eraseDups.map (f (done ++ [b])) := by
      rw [hadd, update_family (hkey done) (nodup_eraseDups _) (fun h => hchange done b (List.mem_eraseDups.mp h))
        (fun h => hnew done b fun hm => h (List.mem_eraseDups.mpr hm)) (hother done b), List.map_append,
        List.map_singleton, eraseDups_snoc]
      simp only [List.mem_eraseDups]
    rw [List.foldl_cons, hstep, foldl_family hkey hadd hchange hnew hother bs (done ++ [b]), List.append_assoc]
    rfl

end XmlShape.FirstSeen
