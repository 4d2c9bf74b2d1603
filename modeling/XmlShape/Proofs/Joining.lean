import XmlShape.Proofs.FirstSeen

/-! # Merging lists by name

Lists whose members have names are merged name by name. What stands under a name afterwards depends
only on what the two lists have there (`find?_merge`), so merging is associative wherever it is so
under every name (`merge_assoc`). -/

namespace XmlShape

/-- A rule for merging: `join` takes a member of the first list with what the second has under its name,
`new` takes over what only the second has. -/
structure Joining {α : Type} (key : α → String) where
  join : α → Option α → α
  new : α → α
  key_join : ∀ a b, key (join a b) = key a
  key_new : ∀ b, key (new b) = key b

namespace Joining

variable {α : Type} {key : α → String}

def atName (J : Joining key) (a b : Option α) : Option α :=
  match a with
  | some a => some (J.join a b)
  | none => b.map J.new

def merge (J : Joining key) (as bs : List α) : List α :=
  (as.map fun a => J.join a (bs.find? fun b => key b == key a)) ++
    (bs.filter fun b => !as.any fun a => key a == key b).map J.new

section
variable (J : Joining key) (as bs : List α)

theorem merge_eq :
    J.merge as bs =
      (as.map fun a => J.join a (bs.find? fun b => key b == key a)) ++
        (bs.filter fun b => !as.any fun a => key a == key b).map J.new :=
  rfl

theorem merge_nil : J.merge as [] = as.map fun a => J.join a none := by
  simp [merge]

theorem nil_merge : J.merge [] bs = bs.map J.new := by
  simp [merge]

theorem mem_merge {c : α} (h : c ∈ J.merge as bs) :
    (∃ a ∈ as, ∃ b : Option α, (∀ x ∈ b, x ∈ bs) ∧ c = J.join a b) ∨ ∃ b ∈ bs, c = J.new b := by
  rcases List.mem_append.mp h with h | h
  · obtain ⟨a, ha, rfl⟩ := List.mem_map.mp h
    exact Or.inl ⟨a, ha, _, fun x hx => List.mem_of_find?_eq_some hx, rfl⟩
  · obtain ⟨b, hb, rfl⟩ := List.mem_map.mp h
    exact Or.inr ⟨b, (List.mem_filter.mp hb).1, rfl⟩

theorem map_merge {β : Type} (f : α → β) :
    (J.merge as bs).map f =
      (as.map fun a => f (J.join a (bs.find? fun b => key b == key a))) ++
        (bs.filter fun b => !as.any fun a => key a == key b).map fun b => f (J.new b) := by
  rw [merge, List.map_append, List.map_map, List.map_map]
  rfl

theorem filter_merge (p : String → Bool) :
    (J.merge as bs).filter (fun c => p (key c)) =
      ((as.filter fun a => p (key a)).map fun a => J.join a (bs.find? fun b => key b == key a)) ++
        (bs.filter fun b => p (key b) && !as.any fun a => key a == key b).map J.new := by
  rw [merge, List.filter_append, List.filter_map, List.filter_map, List.filter_filter]
  simp only [Function.comp_def, J.key_join, J.key_new]

theorem any_merge (n : String) :
    (J.merge as bs).any (fun c => key c == n) = (as.any (fun a => key a == n) || bs.any fun b => key b == n) := by
  rw [merge, List.any_append, List.any_map, List.any_map, List.any_filter]
  simp only [Function.comp_def, J.key_join, J.key_new]
  by_cases h : as.any (fun a => key a == n) = true
  · simp [h]
  · -- the first list has nothing of that name, so the second one keeps what it has
    rw [Bool.not_eq_true] at h
    rw [h, Bool.false_or, Bool.false_or]
    congr 1
    funext b
    by_cases hb : key b = n
    · rw [hb, h]; simp
    · simp [hb]

theorem find?_merge (n : String) :
    (J.merge as bs).find? (fun c => key c == n) =
      J.atName (as.find? fun a => key a == n) (bs.find? fun b => key b == n) := by
  rw [merge, List.find?_append, List.find?_map, List.find?_map, List.find?_filter]
  simp only [Function.comp_def, J.key_join, J.key_new]
  cases h : as.find? (fun a => key a == n) with
  | some a =>
    have ha : key a = n := by simpa using List.find?_some h
    rw [Option.map_some, Option.some_or, ha]
    rfl
  | none =>
    have hn : ∀ b, (key b == n) = true → as.any (fun a => key a == key b) = false := by
      intro b hb
      rw [List.find?_eq_none] at h
      simpa [eq_of_beq hb] using h
    rw [Option.map_none, Option.none_or]
    refine congrArg _ (congrArg (List.find? · bs) (funext fun b => ?_))
    by_cases hb : (key b == n) = true
    · simp [hb, hn b hb]
    · simp [hb]

end

/-- The names of the first list stand before the new ones of the second. -/
theorem map_key_merge (J : Joining key) (as bs : List α) :
    (J.merge as bs).map key = as.map key ++ (bs.map key).filter fun n => !(as.map key).contains n := by
  have hnames : ∀ n, (as.map key).contains n = as.any fun a => key a == n := fun n => by
    rw [List.contains_eq_any_beq, List.any_map]
    exact congrArg as.any (funext fun a => Bool.beq_comm)
  rw [map_merge]
  simp only [J.key_join, J.key_new, List.filter_map, Function.comp_def, hnames]

theorem nodup_map_key_merge (J : Joining key) {as bs : List α} (ha : (as.map key).Nodup) (hb : (bs.map key).Nodup) :
    ((J.merge as bs).map key).Nodup := by
  rw [map_key_merge]
  refine List.nodup_append.mpr ⟨ha, hb.filter _, ?_⟩
  rintro n hn m hm rfl
  have hnew := (List.mem_filter.mp hm).2
  rw [List.contains_iff_mem.mpr hn] at hnew
  cases hnew

/-- What a list with distinct names has under the names of another is what the other has names for. -/
theorem filterMap_find?_perm {as bs : List α} (ha : (as.map key).Nodup) (hb : (bs.map key).Nodup) :
    (as.filterMap fun a => bs.find? fun b => key b == key a).Perm
      (bs.filter fun b => as.any fun a => key a == key b) := by
  have hkey : ∀ {a b : α}, (bs.find? fun x => key x == key a) = some b → b ∈ bs ∧ key b = key a := fun h =>
    ⟨List.mem_of_find?_eq_some h, by simpa using List.find?_some h⟩
  have hfirst : (as.filterMap fun a => bs.find? fun b => key b == key a).Nodup := by
    refine List.Pairwise.filterMap _ (fun a a' hne b hbm b' hbm' heq => hne ?_) (List.pairwise_map.mp ha)
    rw [← (hkey hbm).2, heq, (hkey hbm').2]
  refine (List.perm_ext_iff_of_nodup hfirst ((List.Nodup.of_map key hb).filter _)).mpr fun b => ?_
  simp only [List.mem_filterMap, List.mem_filter, List.any_eq_true, beq_iff_eq]
  constructor
  · rintro ⟨a, hamem, hfind⟩
    exact ⟨(hkey hfind).1, a, hamem, (hkey hfind).2.symm⟩
  · rintro ⟨hbmem, a, hamem, heq⟩
    exact ⟨a, hamem, heq ▸ FirstSeen.find?_key_of_mem hb hbmem⟩

/-- **Merging by name is associative** if it is so under each name, whichever of the three lists have
it. Each of the four merges may follow a rule of its own. -/
theorem merge_assoc {J₁ J₂ J₃ J₄ : Joining key} {as bs cs : List α}
    (h : ∀ a b c : Option α, (∀ x ∈ a, x ∈ as) → (∀ x ∈ b, x ∈ bs) → (∀ x ∈ c, x ∈ cs) →
      J₂.atName (J₁.atName a b) c = J₄.atName a (J₃.atName b c)) :
    J₂.merge (J₁.merge as bs) cs = J₄.merge as (J₃.merge bs cs) := by
  have hfind : ∀ (xs : List α) n, ∀ x ∈ xs.find? (fun x => key x == n), x ∈ xs :=
    fun xs n x hx => List.mem_of_find?_eq_some hx
  have hfirst : ∀ a ∈ as,
      J₂.join (J₁.join a (bs.find? fun b => key b == key a)) (cs.find? fun c => key c == key a) =
        J₄.join a ((J₃.merge bs cs).find? fun b => key b == key a) := by
    intro a ha
    rw [find?_merge]
    exact Option.some.inj (h (some a) _ _ (by simpa using ha) (hfind bs _) (hfind cs _))
  have hsecond : ∀ b ∈ bs,
      J₂.join (J₁.new b) (cs.find? fun c => key c == key b) =
        J₄.new (J₃.join b (cs.find? fun c => key c == key b)) := by
    intro b hb
    exact Option.some.inj (h none (some b) _ (by simp) (by simpa using hb) (hfind cs _))
  have hthird : ∀ c ∈ cs, J₂.new c = J₄.new (J₃.new c) := by
    intro c hc
    exact Option.some.inj (h none none (some c) (by simp) (by simp) (by simpa using hc))
  have habsent : (cs.filter fun c => !(J₁.merge as bs).any fun x => key x == key c) =
      cs.filter fun c => (!as.any fun a => key a == key c) && !bs.any fun b => key b == key c :=
    List.filter_congr fun c _ => by rw [any_merge, Bool.not_or]
  -- on both sides the members of `as` come first, then what is new in `bs`, then what is new in `cs`
  rw [merge_eq J₂, map_merge, habsent, merge_eq J₄, filter_merge J₃ bs cs fun n => !as.any fun a => key a == n,
    List.map_append, List.map_map, List.map_map, List.append_assoc]
  congr 1
  · exact List.map_congr_left fun a ha => by rw [J₁.key_join, hfirst a ha]
  congr 1
  · exact List.map_congr_left fun b hb => by
      rw [J₁.key_new, hsecond b (List.mem_filter.mp hb).1, Function.comp]
  · exact List.map_congr_left fun c hc => hthird c (List.mem_filter.mp hc).1

end Joining

end XmlShape
