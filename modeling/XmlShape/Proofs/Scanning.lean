import Mathlib.Data.List.Pairwise
import Mathlib.Data.List.TakeDrop
import Mathlib.Data.List.TakeWhile
import XmlShape.Xml.Misc
import XmlShape.Xml.Reference

/-! # What scanning finds

A scanner leaves an end of what it was given, and what it finds stood before that: no scanner makes up
characters. Only references by number bring in new ones, and those are checked. -/

namespace XmlShape.Xml

def Legible (cs : List Char) : Prop :=
  ∀ c ∈ cs, isChar c = true

def IsName (s : String) : Prop :=
  ∃ c cs, s.toList = c :: cs ∧ isNameStart c = true ∧ ∀ d ∈ cs, isNameChar d = true

theorem isAlpha_eq (c : Char) :
    c.isAlpha = (decide (c.val ≥ 65 ∧ c.val ≤ 90) || (c.val ≥ 97 && c.val ≤ 122)) :=
  rfl

theorem isChar_of_isNameChar {c : Char} (h : isNameChar c = true) : isChar c = true := by
  simp only [isNameChar, isNameStart, isChar, isAlpha_eq, Char.isDigit,
    UInt32.le_iff_toNat_le, ← Char.toNat_val, ← Char.toNat_inj, Char.reduceVal, UInt32.reduceToNat, Bool.or_eq_true,
    Bool.and_eq_true, decide_eq_true_eq, beq_iff_eq, bne_iff_ne, ge_iff_le] at *
  omega

theorem IsName.all {s : String} : IsName s → ∀ c ∈ s.toList, isNameChar c = true := by
  rintro ⟨c, cs, hs, hc, hcs⟩
  rw [hs]
  exact List.forall_mem_cons.mpr ⟨by simp [isNameChar, hc], hcs⟩

theorem IsName.legible {s : String} (h : IsName s) : Legible s.toList :=
  fun c hc => isChar_of_isNameChar (h.all c hc)

theorem Legible.of_subset {cs ds : List Char} (h : Legible cs) (hsub : ds ⊆ cs) : Legible ds :=
  fun c hc => h c (hsub hc)

theorem Legible.of_suffix {cs rest : List Char} (h : Legible cs) (hrest : rest <:+ cs) : Legible rest :=
  h.of_subset hrest.subset

section
variable {cs content rest : List Char}

theorem skipSpace_suffix (cs : List Char) : skipSpace cs <:+ cs :=
  List.dropWhile_suffix _

theorem afterSpace?_suffix (h : afterSpace? cs = some rest) : rest <:+ cs := by
  cases cs with
  | nil => cases h
  | cons c cs =>
    rw [afterSpace?] at h
    split at h
    · cases h
      exact (skipSpace_suffix cs).trans (List.suffix_cons c cs)
    · cases h

theorem after?_suffix {word : String} (h : after? word cs = some rest) : rest <:+ cs :=
  ⟨word.toList, List.isPrefixOf?_eq_some_iff_append_eq.mp h⟩

theorem name?_suffix {n : String} (h : name? cs = some (n, rest)) : IsName n ∧ rest <:+ cs := by
  cases cs with
  | nil => cases h
  | cons c cs =>
    rw [name?] at h
    split at h
    · rename_i hc
      rw [List.span_eq_takeWhile_dropWhile] at h
      cases h
      refine ⟨⟨c, _, String.toList_ofList, hc, fun d hd => List.mem_takeWhile_imp hd⟩, ?_⟩
      exact (List.dropWhile_suffix _).trans (List.suffix_cons c cs)
    · cases h

theorem nameToken?_suffix {n : String} (h : nameToken? cs = some (n, rest)) : rest <:+ cs := by
  simp only [nameToken?, List.span_eq_takeWhile_dropWhile] at h
  split at h
  · cases h
  · cases h
    exact List.dropWhile_suffix _

theorem splitFrom?_eq {stop before : List Char} : ∀ {cs}, splitFrom? stop before cs = some (content, rest) →
    content ++ stop ++ rest = before.reverse ++ cs
  | [], h => by cases h
  | c :: cs, h => by
    rw [splitFrom?] at h
    split at h
    · rename_i hstop
      cases h
      rw [List.append_assoc, List.isPrefixOf?_eq_some_iff_append_eq.mp hstop]
    · simpa using splitFrom?_eq h

/-- What is before the stop and what is after it, with the stop between. -/
theorem splitAt?_eq {stop : String} (h : splitAt? stop cs = some (content, rest)) :
    content ++ stop.toList ++ rest = cs :=
  splitFrom?_eq h

theorem splitAt?_suffix {stop : String} (h : splitAt? stop cs = some (content, rest)) :
    content ⊆ cs ∧ rest <:+ cs := by
  obtain rfl := splitAt?_eq h
  exact ⟨by simp, List.suffix_append _ _⟩

theorem literal?_suffix (h : literal? cs = some (content, rest)) : content ⊆ cs ∧ rest <:+ cs := by
  have hquoted : ∀ (quote : Char) {stop : String} {inner : List Char},
      splitAt? stop inner = some (content, rest) → content ⊆ quote :: inner ∧ rest <:+ quote :: inner := by
    intro quote stop inner h
    obtain ⟨hcontent, hrest⟩ := splitAt?_suffix h
    exact ⟨List.subset_cons_of_subset quote hcontent, hrest.trans (List.suffix_cons quote inner)⟩
  unfold literal? at h
  split at h
  · exact hquoted _ h
  · exact hquoted _ h
  · cases h

theorem afterEquals?_suffix (h : afterEquals? cs = some rest) : rest <:+ cs := by
  simp only [afterEquals?, Option.bind_eq_bind, Option.bind_eq_some_iff, Option.pure_def, Option.some.injEq] at h
  obtain ⟨inner, h, rfl⟩ := h
  exact (skipSpace_suffix inner).trans ((after?_suffix h).trans (skipSpace_suffix cs))

@[grind →]
theorem suffix_of_cons_suffix {c : Char} (h : c :: rest <:+ cs) : rest <:+ cs :=
  (List.suffix_cons c rest).trans h

attribute [grind →] List.IsSuffix.trans afterSpace?_suffix after?_suffix name?_suffix nameToken?_suffix
  splitAt?_suffix literal?_suffix afterEquals?_suffix

attribute [grind! .] skipSpace_suffix

attribute [grind =] List.suffix_cons_iff

/-! ## Comments and instructions -/

@[grind →]
theorem readComment_suffix (h : readComment cs = .ok (content, rest)) : rest <:+ cs := by
  unfold readComment at h
  split at h
  · cases h
    grind
  · cases h

theorem target?_suffix {n : String} (h : target? cs = some (n, rest)) : rest <:+ cs := by
  simp only [target?, Option.bind_eq_bind, Option.bind_eq_some_iff] at h
  grind

@[grind →]
theorem readInstruction_suffix {n : String} (h : readInstruction cs = .ok (n, content, rest)) : rest <:+ cs := by
  unfold readInstruction at h
  split at h
  · cases h
  · rename_i name inner htarget
    have hinner := target?_suffix htarget
    split at h
    · cases h
      grind
    · split at h
      · rename_i hcontent
        cases h
        simp only [Option.bind_eq_some_iff] at hcontent
        grind
      · cases h

/-! ## References -/

namespace Symbol

def Proper : Symbol → Prop
  | raw c => isChar c = true
  | numbered c => isChar c = true
  | entity name => IsName name

theorem reference?_proper {s : Symbol} (h : reference? cs = some (s, rest)) : s.Proper ∧ rest <:+ cs := by
  unfold reference? at h
  split at h
  · simp only [Option.bind_eq_bind, Option.bind_eq_some_iff] at h
    obtain ⟨⟨digits, after⟩, hsplit, n, -, h⟩ := h
    split at h
    · cases h
      exact ⟨‹_›, by grind⟩
    · cases h
  · simp only [Option.bind_eq_bind, Option.bind_eq_some_iff] at h
    obtain ⟨⟨digits, after⟩, hsplit, n, -, h⟩ := h
    split at h
    · cases h
      exact ⟨‹_›, by grind⟩
    · cases h
  · simp only [Option.bind_eq_bind, Option.bind_eq_some_iff, Option.some.injEq, Prod.mk.injEq] at h
    obtain ⟨⟨name, after⟩, hname, rest, hrest, rfl, rfl⟩ := h
    exact ⟨(name?_suffix hname).1, by grind⟩

theorem readFrom_proper {fuel : Nat} {done symbols : List Symbol} (hdone : ∀ s ∈ done, s.Proper) (hcs : Legible cs)
    (h : readFrom fuel done cs = .ok symbols) : ∀ s ∈ symbols, s.Proper := by
  fun_induction readFrom fuel done cs with
  | case1 _ done =>
    cases h
    simpa using hdone
  | case2 => cases h
  | case3 fuel done cs s rest hreference ih =>
    obtain ⟨hs, hrest⟩ := reference?_proper hreference
    exact ih (List.forall_mem_cons.mpr ⟨hs, hdone⟩) (hcs.of_suffix (hrest.trans (List.suffix_cons '&' cs))) h
  | case4 => cases h
  | case5 fuel done c cs _ ih =>
    obtain ⟨hc, hcs⟩ := List.forall_mem_cons.mp hcs
    exact ih (List.forall_mem_cons.mpr ⟨hc, hdone⟩) hcs h

theorem read_proper {symbols : List Symbol} (hcs : Legible cs) (h : read cs = .ok symbols) :
    ∀ s ∈ symbols, s.Proper :=
  readFrom_proper (fun _ hs => absurd hs List.not_mem_nil) hcs h

end Symbol

end

end XmlShape.Xml
