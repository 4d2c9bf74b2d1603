import Mathlib.Data.List.TakeWhile

/-! # Joined texts taken apart

A joined text gives back its parts where something tells where the first one ends: how long it is, or a property of
its characters that the next character does not have. So a number can be read off in front of anything but digits.
A text that is cut at a separator is cut inside the parts that hold it as well. -/

namespace XmlShape.Text

/-- Where a property holds of all of the first part and not of what the second part begins with, a joined
list has only one such pair of parts. -/
theorem append_inj_of_split {α : Type} {p : α → Bool} {as bs cs ds : List α} (ha : ∀ a ∈ as, p a = true)
    (hb : ∀ b ∈ bs.head?, p b = false) (hc : ∀ c ∈ cs, p c = true) (hd : ∀ d ∈ ds.head?, p d = false)
    (h : as ++ bs = cs ++ ds) : as = cs ∧ bs = ds := by
  have hstop : ∀ xs : List α, (∀ x ∈ xs.head?, p x = false) → xs.takeWhile p = [] := by
    intro xs hx
    cases xs with
    | nil => rfl
    | cons x xs => rw [List.takeWhile_cons, hx x rfl]; rfl
  have hfirst : as = cs := by
    have := congrArg (List.takeWhile p) h
    rwa [List.takeWhile_append_of_pos ha, List.takeWhile_append_of_pos hc, hstop bs hb, hstop ds hd,
      List.append_nil, List.append_nil] at this
  subst hfirst
  exact ⟨rfl, List.append_cancel_left h⟩

theorem append_inj_of_length {a b s t : String} (hl : a.toList.length = b.toList.length) (h : a ++ s = b ++ t) :
    a = b ∧ s = t := by
  have hlist := congrArg String.toList h
  rw [String.toList_append, String.toList_append] at hlist
  obtain ⟨ha, hs⟩ := List.append_inj hlist hl
  exact ⟨String.toList_inj.mp ha, String.toList_inj.mp hs⟩

theorem toList_toString (n : Nat) : (toString n).toList = Nat.toDigits 10 n := by
  rw [Nat.toString_eq_ofList_toDigits, String.toList_ofList]

theorem isDigit_of_mem_toString {n : Nat} : ∀ c ∈ (toString n).toList, c.isDigit = true := by
  intro c hc
  rw [toList_toString] at hc
  exact Nat.isDigit_of_mem_toDigits (by decide) (by decide) hc

/-- A number in front of something else than a digit can be read off. -/
theorem toString_append_inj {m n : Nat} {s t : String} (hs : ∀ c ∈ s.toList.head?, c.isDigit = false)
    (ht : ∀ c ∈ t.toList.head?, c.isDigit = false) (h : toString m ++ s = toString n ++ t) : m = n ∧ s = t := by
  have hlist := congrArg String.toList h
  rw [String.toList_append, String.toList_append] at hlist
  obtain ⟨hnumber, hrest⟩ := append_inj_of_split isDigit_of_mem_toString hs isDigit_of_mem_toString ht hlist
  rw [toList_toString, toList_toString] at hnumber
  have hvalue := congrArg (fun ds => Nat.ofDigitChars 10 ds 0) hnumber
  exact ⟨by simpa only [Nat.ofDigitChars_ten_toDigits] using hvalue, String.toList_inj.mp hrest⟩

/-! ## Cuts at a separator -/

section
variable {α : Type} {x : α} {sep : List α} {ls : List (List α)}

theorem mem_intercalate (h : x ∈ ls.flatten) : x ∈ sep.intercalate ls := by
  induction ls with
  | nil => exact h
  | cons l ls ih =>
    rcases eq_or_ne ls [] with rfl | hls
    · simpa using h
    · rw [List.intercalate_cons_of_ne_nil hls, List.append_assoc, List.mem_append, List.mem_append]
      rcases List.mem_append.mp h with h | h
      · exact .inl h
      · exact .inr (.inr (ih h))

theorem mem_of_mem_intercalate (h : x ∈ sep.intercalate ls) : x ∈ sep ∨ x ∈ ls.flatten := by
  induction ls with
  | nil => exact .inr h
  | cons l ls ih =>
    rcases eq_or_ne ls [] with rfl | hls
    · exact .inr (by simpa using h)
    · rw [List.intercalate_cons_of_ne_nil hls, List.append_assoc, List.mem_append, List.mem_append] at h
      rcases h with h | h | h
      · exact .inr (List.mem_append_left _ h)
      · exact .inl h
      · exact (ih h).imp_right (List.mem_append_right l)

end

/-- A list is cut once at each occurrence of the separator. -/
theorem length_splitOn {α : Type} [BEq α] (x : α) (as : List α) : (as.splitOn x).length = as.count x + 1 := by
  induction as with
  | nil => simp
  | cons a as ih =>
    rw [List.splitOn_cons_eq_if_modifyHead, List.count_cons]
    split <;> simp [ih]

section
variable {α : Type} [BEq α] [LawfulBEq α] {x : α}

/-- Cuts come after what does not hold the separator. -/
theorem splitOn_append_of_not_mem {as : List α} (h : x ∉ as) (bs : List α) :
    (as ++ bs).splitOn x = (bs.splitOn x).modifyHead (as ++ ·) := by
  induction as with
  | nil => exact (congrFun List.modifyHead_id _).symm
  | cons a as ih =>
    rw [List.mem_cons, not_or] at h
    obtain ⟨ha, has⟩ := h
    rw [List.cons_append, List.splitOn_cons_eq_if_modifyHead, if_neg (by simpa using Ne.symm ha), ih has,
      List.modifyHead_modifyHead]
    rfl

/-- A joined list is cut where its parts are, and between them. -/
theorem splitOn_intercalate {ls : List (List α)} (h : ls ≠ []) :
    ([x].intercalate ls).splitOn x = ls.flatMap (·.splitOn x) := by
  induction ls with
  | nil => exact absurd rfl h
  | cons l ls ih =>
    rcases eq_or_ne ls [] with rfl | hls
    · simp
    · rw [List.intercalate_cons_of_ne_nil hls, List.append_assoc, List.singleton_append,
        List.splitOn_append_cons_self, ih hls, List.flatMap_cons]

theorem count_intercalate {sep : List α} (h : x ∉ sep) (ls : List (List α)) :
    (sep.intercalate ls).count x = ls.flatten.count x := by
  induction ls with
  | nil => simp
  | cons l ls ih =>
    rcases eq_or_ne ls [] with rfl | hls
    · simp
    · rw [List.intercalate_cons_of_ne_nil hls, List.count_append, List.count_append, List.count_eq_zero_of_not_mem h,
        ih, List.flatten_cons, List.count_append, Nat.add_zero]

end

end XmlShape.Text
