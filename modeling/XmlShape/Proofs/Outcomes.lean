import Mathlib.Data.List.Forall2

/-! # Computations that may fail

What must have held along the way for a computation to succeed. -/

namespace XmlShape.Outcome

variable {ε ε' α β σ : Type}

theorem bind_eq_ok {x : Except ε α} {f : α → Except ε β} {b : β} :
    (x >>= f) = .ok b ↔ ∃ a, x = .ok a ∧ f a = .ok b := by
  cases x with
  | error e =>
    constructor
    · intro h
      cases h
    · rintro ⟨a, h, -⟩
      cases h
  | ok a =>
    constructor
    · intro h
      exact ⟨a, rfl, h⟩
    · rintro ⟨a', h, hf⟩
      cases h
      exact hf

theorem map_eq_ok {x : Except ε α} {f : α → β} {b : β} : x.map f = .ok b ↔ ∃ a, x = .ok a ∧ f a = b := by
  cases x <;> simp [Except.map]

theorem mapError_eq_ok {x : Except ε α} {f : ε → ε'} {a : α} : x.mapError f = .ok a ↔ x = .ok a := by
  cases x with
  | error e => exact iff_of_false nofun nofun
  | ok b => exact ⟨fun h => congrArg _ (Except.ok.inj h), fun h => congrArg _ (Except.ok.inj h)⟩

theorem mem_of_mapM_eq_ok {f : α → Except ε β} : ∀ {as : List α} {bs : List β}, as.mapM f = .ok bs →
    ∀ b ∈ bs, ∃ a ∈ as, f a = .ok b
  | [], bs, h, b, hb => by
    cases h
    cases hb
  | a :: as, bs, h, b, hb => by
    rw [List.mapM_cons] at h
    obtain ⟨c, hc, h⟩ := bind_eq_ok.mp h
    obtain ⟨cs, hcs, h⟩ := bind_eq_ok.mp h
    cases h
    rcases List.mem_cons.mp hb with rfl | hb
    · exact ⟨a, List.mem_cons_self .., hc⟩
    · obtain ⟨d, hd, hfd⟩ := mem_of_mapM_eq_ok hcs b hb
      exact ⟨d, List.mem_cons_of_mem a hd, hfd⟩

theorem forall₂_of_mapM_eq_ok {f : α → Except ε β} : ∀ {as : List α} {bs : List β}, as.mapM f = .ok bs →
    List.Forall₂ (fun a b => f a = .ok b) as bs
  | [], bs, h => by
    cases h
    exact .nil
  | a :: as, bs, h => by
    rw [List.mapM_cons] at h
    obtain ⟨c, hc, h⟩ := bind_eq_ok.mp h
    obtain ⟨cs, hcs, h⟩ := bind_eq_ok.mp h
    cases h
    exact .cons hc (forall₂_of_mapM_eq_ok hcs)

theorem mapM_eq_ok {f : α → Except ε β} {g : α → β} : ∀ {as : List α}, (∀ a ∈ as, f a = .ok (g a)) →
    as.mapM f = .ok (as.map g)
  | [], _ => rfl
  | a :: as, h => by
    obtain ⟨ha, has⟩ := List.forall_mem_cons.mp h
    rw [List.mapM_cons, ha, mapM_eq_ok has]
    rfl

theorem exists_mapM {f : α → Except ε β} : ∀ {as : List α}, (∀ a ∈ as, ∃ b, f a = .ok b) → ∃ bs, as.mapM f = .ok bs
  | [], _ => ⟨[], rfl⟩
  | a :: as, h => by
    obtain ⟨⟨b, hb⟩, has⟩ := List.forall_mem_cons.mp h
    obtain ⟨bs, hbs⟩ := exists_mapM has
    refine ⟨b :: bs, ?_⟩
    rw [List.mapM_cons, hb, hbs]
    rfl

/-- A check that precedes a computation must have passed. -/
theorem check_bind_eq_ok {x : Except ε Unit} {f : Unit → Except ε β} {b : β} :
    (x >>= f) = .ok b ↔ x = .ok () ∧ f () = .ok b :=
  bind_eq_ok.trans ⟨fun ⟨_, h⟩ => h, fun h => ⟨(), h⟩⟩

theorem forM_eq_ok {f : α → Except ε Unit} : ∀ {as : List α}, as.forM f = .ok () ↔ ∀ a ∈ as, f a = .ok ()
  | [] => by simp [List.forM, pure, Except.pure]
  | a :: as => by
    have hcons : (a :: as).forM f = f a >>= fun _ => as.forM f := rfl
    rw [hcons, check_bind_eq_ok, List.forall_mem_cons, ← forM_eq_ok]

/-- What every successful step preserves holds after a successful run. -/
theorem foldlM_preserves {P : σ → Prop} {f : σ → α → Except ε σ} : ∀ {as : List α} {s t : σ},
    (∀ a ∈ as, ∀ s t, P s → f s a = .ok t → P t) → P s → as.foldlM f s = .ok t → P t
  | [], s, t, _, hs, h => by
    cases h
    exact hs
  | a :: as, s, t, hstep, hs, h => by
    rw [List.foldlM_cons] at h
    obtain ⟨u, hu, h⟩ := bind_eq_ok.mp h
    exact foldlM_preserves (fun b hb => hstep b (List.mem_cons_of_mem a hb))
      (hstep a (List.mem_cons_self ..) s u hs hu) h

/-- The same, where it is known which steps were made before. -/
theorem foldlM_preserves_after {P : List α → σ → Prop} {f : σ → α → Except ε σ}
    (step : ∀ done a s t, P done s → f s a = .ok t → P (done ++ [a]) t) :
    ∀ {done as : List α} {s t : σ}, P done s → as.foldlM f s = .ok t → P (done ++ as) t
  | done, [], s, t, hs, h => by
    cases h
    simpa using hs
  | done, a :: as, s, t, hs, h => by
    rw [List.foldlM_cons] at h
    obtain ⟨u, hu, h⟩ := bind_eq_ok.mp h
    simpa using foldlM_preserves_after step (step done a s u hs hu) h

end XmlShape.Outcome
