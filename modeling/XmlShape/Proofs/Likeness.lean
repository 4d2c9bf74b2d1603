import XmlShape.Proofs.Absorbing
import XmlShape.Summary.Merge

/-! # Likeness of summaries

Two summaries are alike just if they say the same at every path, whatever the order of their attributes and
children (`alike_iff_samePaths`). What a summary that absorbs another says at a path depends only on what the
two say there and right above, so merging respects likeness (`merge_respects_alike`). -/

namespace XmlShape

/-! ## Related options -/

section
variable {α : Type} {r : α → α → Prop}

theorem rel_refl (hr : ∀ a, r a a) (x : Option α) : Option.Rel r x x := by
  cases x with
  | some a => exact .some (hr a)
  | none => exact .none

section
variable {x y : Option α} (h : Option.Rel r x y)
include h

theorem rel_symm (hr : ∀ a b, r a b → r b a) : Option.Rel r y x := by
  cases h with
  | some h => exact .some (hr _ _ h)
  | none => exact .none

theorem rel_trans {z : Option α} (h' : Option.Rel r y z) (hr : ∀ a b c, r a b → r b c → r a c) :
    Option.Rel r x z := by
  cases h with
  | some h =>
    cases h' with
    | some h' => exact .some (hr _ _ _ h h')
  | none => exact h'

theorem isSome_iff_of_rel : x.isSome ↔ y.isSome := by
  cases h <;> rfl

theorem map_eq_of_rel {β : Type} {f : α → β} (hf : ∀ a b, r a b → f a = f b) : x.map f = y.map f := by
  cases h with
  | some h => exact congrArg some (hf _ _ h)
  | none => rfl

theorem rel_bind {β : Type} {r' : β → β → Prop} {f g : α → Option β}
    (hfg : ∀ a b, r a b → Option.Rel r' (f a) (g b)) : Option.Rel r' (x.bind f) (y.bind g) := by
  cases h with
  | some h => exact hfg _ _ h
  | none => exact .none

end

theorem rel_congr {r' : α → α → Prop} {x y : Option α} (h : ∀ a ∈ x, ∀ b ∈ y, (r a b ↔ r' a b)) :
    Option.Rel r x y ↔ Option.Rel r' x y := by
  cases x <;> cases y <;> simp_all

end

/-! ## Lists by name -/

section
variable {α : Type} {key : α → String} {as bs : List α}

/-- Lists with distinct names match under every name if each member of the first has a match in the second and
both are equally long. -/
theorem rel_find?_key_iff {R : α → α → Prop} (ha : (as.map key).Nodup) (hb : (bs.map key).Nodup) :
    (as.length = bs.length ∧ ∀ a ∈ as, ∃ b, (bs.find? fun b => key b == key a) = some b ∧ R a b) ↔
      ∀ n, Option.Rel R (as.find? fun a => key a == n) (bs.find? fun b => key b == n) := by
  constructor
  · rintro ⟨hlength, hmatch⟩ n
    have hsub : as.map key ⊆ bs.map key := by
      intro m hm
      obtain ⟨a, hmem, rfl⟩ := List.mem_map.mp hm
      obtain ⟨b, hfind, -⟩ := hmatch a hmem
      exact (FirstSeen.isSome_find?_key _).mp (Option.isSome_of_eq_some hfind)
    -- there is no room for a name that only the second list has
    have hperm : (as.map key).Perm (bs.map key) :=
      (List.subperm_of_subset ha hsub).perm_of_length_le (by simp [hlength])
    cases h : as.find? fun a => key a == n with
    | some a =>
      obtain ⟨b, hfind, hR⟩ := hmatch a (List.mem_of_find?_eq_some h)
      have hn : key a = n := by simpa using List.find?_some h
      rw [← hn, hfind]
      exact .some hR
    | none =>
      have hnone : (bs.find? fun b => key b == n) = none := by
        rw [← Option.not_isSome_iff_eq_none, FirstSeen.isSome_find?_key, ← hperm.mem_iff, ← FirstSeen.isSome_find?_key, h]
        exact Bool.false_ne_true
      rw [hnone]
      exact .none
  · intro h
    have hmatch : ∀ a ∈ as, ∃ b, (bs.find? fun b => key b == key a) = some b ∧ R a b := by
      intro a hmem
      have hrel := h (key a)
      rw [FirstSeen.find?_key_of_mem ha hmem] at hrel
      cases hfind : bs.find? fun b => key b == key a with
      | some b =>
        rw [hfind] at hrel
        exact ⟨b, rfl, Option.rel_some_some.mp hrel⟩
      | none =>
        rw [hfind] at hrel
        cases hrel
    have hnames : ∀ n, n ∈ as.map key ↔ n ∈ bs.map key := by
      intro n
      rw [← FirstSeen.isSome_find?_key, ← FirstSeen.isSome_find?_key]
      exact isSome_iff_of_rel (h n)
    have hperm := (List.perm_ext_iff_of_nodup ha hb).mpr hnames
    exact ⟨by simpa using hperm.length_eq, hmatch⟩

end

namespace AttributeSummary

theorem sameAll_iff {as bs : List AttributeSummary} (ha : (as.map (·.name)).Nodup) (hb : (bs.map (·.name)).Nodup) :
    sameAll as bs = true ↔ ∀ name, find? as name = find? bs name := by
  have hrel : ∀ x y : Option AttributeSummary, Option.Rel (· = ·) x y ↔ x = y := by
    intro x y
    cases x <;> cases y <;> simp
  have hmatch := rel_find?_key_iff (R := (· = ·)) ha hb
  simp only [hrel] at hmatch
  rw [sameAll, Bool.and_eq_true, beq_iff_eq, List.all_eq_true]
  refine Iff.trans ?_ hmatch
  simp only [beq_iff_eq, find?, exists_eq_right']

end AttributeSummary

namespace Summary

open Session (descend?)

/-! ## Saying the same -/

structure SameHere (s t : Summary) : Prop where
  name : s.name = t.name
  counts : s.counts = t.counts
  mixed : s.mixed = t.mixed
  texts : s.texts = t.texts
  attributes : ∀ name, s.attribute? name = t.attribute? name

def SamePaths (s t : Summary) : Prop :=
  ∀ path, Option.Rel SameHere (descend? s path) (descend? t path)

section
variable {s s' t t' u : Summary}

theorem SameHere.refl (s : Summary) : SameHere s s :=
  ⟨rfl, rfl, rfl, rfl, fun _ => rfl⟩

theorem SameHere.symm (h : SameHere s t) : SameHere t s :=
  ⟨h.name.symm, h.counts.symm, h.mixed.symm, h.texts.symm, fun n => (h.attributes n).symm⟩

theorem SameHere.trans (h : SameHere s t) (h' : SameHere t u) : SameHere s u :=
  ⟨h.name.trans h'.name, h.counts.trans h'.counts, h.mixed.trans h'.mixed, h.texts.trans h'.texts,
    fun n => (h.attributes n).trans (h'.attributes n)⟩

theorem SamePaths.refl (s : Summary) : SamePaths s s := fun path =>
  rel_refl SameHere.refl (descend? s path)

theorem SamePaths.symm (h : SamePaths s t) : SamePaths t s := fun path =>
  rel_symm (h path) fun _ _ => SameHere.symm

theorem SamePaths.trans (h : SamePaths s t) (h' : SamePaths t u) : SamePaths s u := fun path =>
  rel_trans (h path) (h' path) fun _ _ _ => SameHere.trans

/-- The two say the same here and below each name. -/
theorem samePaths_iff : SamePaths s t ↔ SameHere s t ∧ ∀ n, Option.Rel SamePaths (s.child? n) (t.child? n) := by
  constructor
  · intro h
    refine ⟨Option.rel_some_some.mp (h []), fun n => ?_⟩
    have hbelow : ∀ path, Option.Rel SameHere ((s.child? n).bind fun c => descend? c path)
        ((t.child? n).bind fun d => descend? d path) := fun path => h (n :: path)
    revert hbelow
    cases s.child? n with
    | some c =>
      cases t.child? n with
      | some d => exact fun hbelow => .some hbelow
      | none => exact fun hbelow => nomatch hbelow []
    | none =>
      cases t.child? n with
      | some d => exact fun hbelow => nomatch hbelow []
      | none => exact fun _ => .none
  · rintro ⟨hhere, hbelow⟩ path
    cases path with
    | nil => exact .some hhere
    | cons n path =>
      exact rel_bind (hbelow n) fun _ _ hsame => hsame path

/-! ## Comparing -/

theorem alikeEach_iff {others cs : List Summary} :
    alikeEach others cs = true ↔ ∀ c ∈ cs, ∃ d, find? others c.name = some d ∧ c.alike d = true := by
  induction cs with
  | nil => simp [alikeEach]
  | cons c cs ih =>
    rw [alikeEach, Bool.and_eq_true, ih, List.forall_mem_cons]
    cases find? others c.name <;> simp

theorem alike_iff :
    s.alike t = true ↔
      s.name = t.name ∧ s.counts = t.counts ∧ s.mixed = t.mixed ∧ s.texts = t.texts ∧
        AttributeSummary.sameAll s.attributes t.attributes = true ∧
        s.children.length = t.children.length ∧ alikeEach t.children s.children = true := by
  cases s
  simp [alike, and_assoc]

/-- **Likeness is saying the same at every path.** -/
theorem alike_iff_samePaths (hs : Keyed s) : ∀ {t : Summary}, Keyed t → (s.alike t = true ↔ SamePaths s t) := by
  induction hs with
  | @intro s hnames hattributes _ ih =>
    rintro t ⟨hnames', hattributes', hchildren'⟩
    have hbelow : (s.children.length = t.children.length ∧ alikeEach t.children s.children = true) ↔
        ∀ n, Option.Rel SamePaths (s.child? n) (t.child? n) := by
      rw [alikeEach_iff]
      refine (rel_find?_key_iff (R := fun c d => c.alike d = true) hnames hnames').trans (forall_congr' fun n => ?_)
      -- likeness of children is sameness below them, by induction on the first summary
      refine rel_congr fun c hc d hd => ?_
      exact ih c (List.mem_of_find?_eq_some hc) (hchildren' d (List.mem_of_find?_eq_some hd))
    rw [alike_iff, AttributeSummary.sameAll_iff hattributes hattributes', hbelow, samePaths_iff]
    constructor
    · rintro ⟨hname, hcounts, hmixed, htexts, hattributes, hchildren⟩
      exact ⟨⟨hname, hcounts, hmixed, htexts, hattributes⟩, hchildren⟩
    · rintro ⟨⟨hname, hcounts, hmixed, htexts, hattributes⟩, hchildren⟩
      exact ⟨hname, hcounts, hmixed, htexts, hattributes, hchildren⟩

/-! ## Absorbing what is alike -/

theorem SameHere.instances (h : SameHere s t) : s.instances = t.instances :=
  congrArg total h.counts

theorem SameHere.absorb (hs : SameHere s s') (ht : SameHere t t') : SameHere (s.absorb t) (s'.absorb t') where
  name := by rw [absorb_eq, absorb_eq, hs.name]
  counts := by rw [absorb_eq, absorb_eq, hs.counts, ht.counts]
  mixed := by rw [absorb_eq, absorb_eq, hs.mixed, ht.mixed]
  texts := by rw [absorb_eq, absorb_eq, hs.texts, ht.texts]
  attributes name := by rw [attribute?_absorb, attribute?_absorb, hs.attributes, ht.attributes]

theorem SameHere.absentAfter (h : SameHere s t) (n : Int) : SameHere (s.absentAfter n) (t.absentAfter n) :=
  ⟨h.name, congrArg (· ++ absences n) h.counts, h.mixed, h.texts, h.attributes⟩

theorem SameHere.absentBefore (h : SameHere s t) (n : Int) : SameHere (s.absentBefore n) (t.absentBefore n) :=
  ⟨h.name, congrArg (absences n ++ ·) h.counts, h.mixed, h.texts, h.attributes⟩

theorem rel_atName {x x' y y' : Option Summary} (hx : Option.Rel SameHere x x') (hy : Option.Rel SameHere y y')
    (mine theirs : Int) :
    Option.Rel SameHere ((joining mine theirs).atName x y) ((joining mine theirs).atName x' y') := by
  cases hx with
  | some hx =>
    cases hy with
    | some hy => exact .some (hx.absorb hy)
    | none => exact .some (hx.absentAfter theirs)
  | none =>
    cases hy with
    | some hy => exact .some (hy.absentBefore mine)
    | none => exact .none

theorem SamePaths.instancesAbove (h : SamePaths s t) (path : List String) :
    s.instancesAbove path = t.instancesAbove path := by
  rw [Summary.instancesAbove, Summary.instancesAbove, map_eq_of_rel (h path.dropLast) fun _ _ => SameHere.instances]

/-- **Absorbing respects sameness.** -/
theorem SamePaths.absorb (hs : SamePaths s s') (ht : SamePaths t t') : SamePaths (s.absorb t) (s'.absorb t') := by
  intro path
  rw [descend?_absorb, descend?_absorb, hs.instancesAbove, ht.instancesAbove]
  exact rel_atName (hs path) (ht path) _ _

/-! ## Merging what is alike -/

theorem alike_equivalence : Equivalence fun s t : {s : Summary // Keyed s} => s.1.alike t.1 = true where
  refl s := (alike_iff_samePaths s.2 s.2).mpr (.refl s.1)
  symm {s t} h := (alike_iff_samePaths t.2 s.2).mpr ((alike_iff_samePaths s.2 t.2).mp h).symm
  trans {s t u} h h' := (alike_iff_samePaths s.2 u.2).mpr
    (((alike_iff_samePaths s.2 t.2).mp h).trans ((alike_iff_samePaths t.2 u.2).mp h'))

theorem merge_of_ne (h : s.name ≠ t.name) : s.merge t = .error (.differentNames s.name t.name) :=
  if_neg h

theorem merge_of_alike (h : s.alike t = true) : s.merge t = .ok s := by
  rw [merge, if_pos (alike_iff.mp h).1, if_pos h]

theorem merge_of_not_alike (hname : s.name = t.name) (h : s.alike t ≠ true) : s.merge t = .ok (s.absorb t) := by
  rw [merge, if_pos hname, if_neg h]

/-- **Merging respects likeness.** Summaries are alike just if they say the same at every path, and this is an
equivalence. Merging fails for different names alone, for summaries that are alike it either fails or gives
results that are alike, and one that is merged with what is like it stays as it is. -/
theorem merge_respects_alike :
    (∀ s t : Summary, Keyed s → Keyed t → (s.alike t = true ↔ SamePaths s t)) ∧
    (Equivalence fun s t : {s : Summary // Keyed s} => s.1.alike t.1 = true) ∧
    ∀ a a' b b' : Summary, Keyed a → Keyed a' → Keyed b → Keyed b' → a.alike a' = true → b.alike b' = true →
      (a.name ≠ b.name → a.merge b = .error (.differentNames a.name b.name) ∧
        a'.merge b' = .error (.differentNames a'.name b'.name)) ∧
      (a.name = b.name → ∃ u u', a.merge b = .ok u ∧ a'.merge b' = .ok u' ∧ u.alike u' = true) ∧
      a.merge a' = .ok a := by
  refine ⟨fun s t hs ht => alike_iff_samePaths hs ht, alike_equivalence, fun a a' b b' ha ha' hb hb' haa hbb => ?_⟩
  have hsa := (alike_iff_samePaths ha ha').mp haa
  have hsb := (alike_iff_samePaths hb hb').mp hbb
  have hna : a.name = a'.name := (alike_iff.mp haa).1
  have hnb : b.name = b'.name := (alike_iff.mp hbb).1
  refine ⟨fun hne => ⟨merge_of_ne hne, merge_of_ne (hna ▸ hnb ▸ hne)⟩, fun heq => ?_, merge_of_alike haa⟩
  have heq' : a'.name = b'.name := hna.symm.trans (heq.trans hnb)
  by_cases hab : a.alike b = true
  · have hab' : a'.alike b' = true := (alike_iff_samePaths ha' hb').mpr
      ((hsa.symm.trans ((alike_iff_samePaths ha hb).mp hab)).trans hsb)
    exact ⟨a, a', merge_of_alike hab, merge_of_alike hab', haa⟩
  · have hab' : a'.alike b' ≠ true := fun h => hab ((alike_iff_samePaths ha hb).mpr
      ((hsa.trans ((alike_iff_samePaths ha' hb').mp h)).trans hsb.symm))
    exact ⟨a.absorb b, a'.absorb b', merge_of_not_alike heq hab, merge_of_not_alike heq' hab',
      (alike_iff_samePaths (ha.absorb hb) (ha'.absorb hb')).mpr (hsa.absorb hsb)⟩

end

/-- Two pairs that differ in the order of attributes and children, also below a child. -/
theorem merge_respects_alike_reordered :
    let leaf (name : String) (counts : List Int) : Summary := ⟨name, counts, false, [], [], []⟩
    let k : AttributeSummary := ⟨"k", .ofList ["1", "2"], 2⟩
    let l : AttributeSummary := ⟨"l", .ofList ["3"], 1⟩
    let a : Summary := ⟨"r", [2], false, ["t"], [k, l],
      [⟨"c", [1, 1], false, [], [], [leaf "x" [1, 0], leaf "y" [0, 2]]⟩, leaf "d" [3, 0]]⟩
    let a' : Summary := ⟨"r", [2], false, ["t"], [l, k],
      [leaf "d" [3, 0], ⟨"c", [1, 1], false, [], [], [leaf "y" [0, 2], leaf "x" [1, 0]]⟩]⟩
    let b : Summary := ⟨"r", [1], false, [], [l], [leaf "e" [1], leaf "c" [2]]⟩
    let b' : Summary := ⟨"r", [1], false, [], [l], [leaf "c" [2], leaf "e" [1]]⟩
    (a.alike a' = true ∧ b.alike b' = true) ∧ a.merge a' = .ok a ∧
      ∃ u u', a.merge b = .ok u ∧ a'.merge b' = .ok u' ∧ u.alike u' = true ∧
        u.children.map (fun c => (c.name, c.counts)) = [("c", [1, 1, 2]), ("d", [3, 0, 0]), ("e", [0, 0, 1])] ∧
        u'.children.map (fun c => (c.name, c.counts)) = [("d", [3, 0, 0]), ("c", [1, 1, 2]), ("e", [0, 0, 1])] := by
  intro leaf k l a a' b b'
  have hleaf : ∀ name counts, Keyed (leaf name counts) := fun _ _ =>
    .intro List.nodup_nil List.nodup_nil (List.forall_mem_nil _)
  have ha : Keyed a := by
    refine .intro (by decide) (by decide) (List.forall_mem_cons.mpr ⟨?_, List.forall_mem_singleton.mpr (hleaf _ _)⟩)
    exact .intro (by decide) (by decide)
      (List.forall_mem_cons.mpr ⟨hleaf _ _, List.forall_mem_singleton.mpr (hleaf _ _)⟩)
  have ha' : Keyed a' := by
    refine .intro (by decide) (by decide) (List.forall_mem_cons.mpr ⟨hleaf _ _, List.forall_mem_singleton.mpr ?_⟩)
    exact .intro (by decide) (by decide)
      (List.forall_mem_cons.mpr ⟨hleaf _ _, List.forall_mem_singleton.mpr (hleaf _ _)⟩)
  have hb : Keyed b := .intro (by decide) (by decide)
    (List.forall_mem_cons.mpr ⟨hleaf _ _, List.forall_mem_singleton.mpr (hleaf _ _)⟩)
  have hb' : Keyed b' := .intro (by decide) (by decide)
    (List.forall_mem_cons.mpr ⟨hleaf _ _, List.forall_mem_singleton.mpr (hleaf _ _)⟩)
  have haa : a.alike a' = true := by decide
  have hbb : b.alike b' = true := by decide
  obtain ⟨-, hsame, hself⟩ := merge_respects_alike.2.2 a a' b b' ha ha' hb hb' haa hbb
  obtain ⟨u, u', hu, hu', halike⟩ := hsame rfl
  have hfirst : a.merge b = .ok (a.absorb b) := merge_of_not_alike rfl (by decide)
  have hsecond : a'.merge b' = .ok (a'.absorb b') := merge_of_not_alike rfl (by decide)
  obtain rfl := Except.ok.inj (hfirst.symm.trans hu)
  obtain rfl := Except.ok.inj (hsecond.symm.trans hu')
  exact ⟨⟨haa, hbb⟩, hself, _, _, hu, hu', halike, rfl, rfl⟩

end Summary

end XmlShape
