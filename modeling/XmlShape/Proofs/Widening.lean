import Mathlib.Data.List.TakeWhile
import Mathlib.Order.Basic
import XmlShape.Schema.Basic

/-! # Wider types for more samples

A type is inferred as the least, in the order of the types, of those whose rule every sample meets. The rules
overlap only as that order allows: a decimal that is a truth word is an integer, and what begins with a date
is neither. So more samples never lead to a type aside, and only the set of samples counts
(`ofSamples_widens`). -/

namespace XmlShape

/-! ## Lowercase text -/

namespace Text

theorem lowerChar_of_lt {c : Char} (h : c.toNat < 65) : lowerChar c = c := by
  have hlower : c.toLower = c := dif_neg fun ⟨hcapital, _⟩ => by
    have hcode : 65 ≤ c.toNat := hcapital
    omega
  rw [lowerChar, if_pos (by omega), hlower]

/-- Characters before the capital letters stay where a text is lowercased. -/
theorem mem_lowerAfter {c : Char} (h : c.toNat < 65) {before done cs : List Char} (hc : c ∈ done ∨ c ∈ cs) :
    c ∈ lowerAfter before done cs := by
  induction cs generalizing before done with
  | nil =>
    rw [lowerAfter, List.mem_reverse]
    simpa using hc
  | cons d cs ih =>
    rw [lowerAfter]
    refine ih ?_
    rcases hc with hc | hc
    · left
      split
      · exact List.mem_cons_of_mem _ hc
      · split
        · exact List.mem_cons_of_mem _ (List.mem_cons_of_mem _ hc)
        · exact List.mem_cons_of_mem _ hc
    · rcases List.mem_cons.mp hc with rfl | hc
      · left
        have hsigma : c ≠ 'Σ' := fun heq => absurd (heq ▸ h) (by decide)
        have hdotted : c ≠ 'İ' := fun heq => absurd (heq ▸ h) (by decide)
        rw [if_neg hsigma, if_neg hdotted, lowerChar_of_lt h]
        exact List.mem_cons_self
      · exact .inr hc

theorem mem_lower {c : Char} {s : String} (h : c.toNat < 65) (hc : c ∈ s.toList) : c ∈ (lower s).toList := by
  rw [lower, String.toList_ofList]
  exact mem_lowerAfter h (.inr hc)

end Text

/-! ## Where the rules overlap -/

namespace SampleType

theorem unsigned_suffix (cs : List Char) : unsigned cs <:+ cs := by
  unfold unsigned
  split
  · exact List.suffix_cons ..
  · exact List.suffix_rfl

section
variable {s : String}

theorem isDecimal_of_isInteger (h : isInteger s = true) : isDecimal s = true := by
  have hall : ∀ c ∈ unsigned s.toList, c.isDigit = true := by
    rw [isInteger, isDigits, Bool.and_eq_true] at h
    exact List.all_eq_true.mp h.2
  rw [isDecimal, List.takeWhile_eq_self_iff.mpr hall, List.dropWhile_eq_nil_iff.mpr hall, Bool.and_eq_true]
  exact ⟨h, rfl⟩

/-- A decimal is digits with a dot in between, or an integer. -/
theorem isDecimal_cases (h : isDecimal s = true) :
    isInteger s = true ∨
      '.' ∈ s.toList ∧ ∀ c ∈ unsigned s.toList, c.isDigit = true ∨ c = '.' := by
  rw [isDecimal, Bool.and_eq_true] at h
  obtain ⟨hwhole, hfraction⟩ := h
  have hsplit := List.takeWhile_append_dropWhile (p := Char.isDigit) (l := unsigned s.toList)
  cases hrest : (unsigned s.toList).dropWhile Char.isDigit with
  | nil =>
    left
    rw [hrest, List.append_nil] at hsplit
    rwa [isInteger, ← hsplit]
  | cons d ds =>
    right
    rw [hrest, isFraction, Bool.and_eq_true, beq_iff_eq, isDigits, Bool.and_eq_true] at hfraction
    obtain ⟨rfl, -, hds⟩ := hfraction
    rw [hrest] at hsplit
    refine ⟨(unsigned_suffix _).subset ?_, ?_⟩
    · rw [← hsplit]
      simp
    · rw [← hsplit]
      intro c hc
      rcases List.mem_append.mp hc with hc | hc
      · exact .inl (List.mem_takeWhile_imp hc)
      · rcases List.mem_cons.mp hc with rfl | hc
        · exact .inr rfl
        · exact .inl (List.all_eq_true.mp hds c hc)

theorem mem_unsigned_of_isDecimal (h : isDecimal s = true) : ∀ c ∈ unsigned s.toList, c.isDigit = true ∨ c = '.' := by
  rcases isDecimal_cases h with hinteger | ⟨-, hchars⟩
  · rw [isInteger, isDigits, Bool.and_eq_true, List.all_eq_true] at hinteger
    exact fun c hc => .inl (hinteger.2 c hc)
  · exact hchars

theorem not_mem_hyphen_of_isDecimal (h : isDecimal s = true) : '-' ∉ unsigned s.toList := fun hc =>
  absurd (mem_unsigned_of_isDecimal h _ hc) (by decide)

/-- What begins with a date begins with a digit and has a hyphen after it. -/
theorem isDated_cases (h : isDated s = true) : '-' ∈ unsigned s.toList ∧ '-' ∈ s.toList := by
  rw [isDated] at h
  unfold afterDate? at h
  split at h
  · rename_i y₁ y₂ y₃ y₄ m₁ m₂ d₁ d₂ rest hs
    split at h
    · rename_i hdigits
      have hfirst : y₁ ≠ '-' := by
        rintro rfl
        simp at hdigits
      rw [hs, unsigned]
      · simp
      · exact fun cs heq => hfirst (List.cons.inj heq).1
    · cases h
  · cases h

theorem not_isDecimal_of_isDated (h : isDated s = true) : ¬ isDecimal s = true := fun hdecimal =>
  not_mem_hyphen_of_isDecimal hdecimal (isDated_cases h).1

/-- The words for truth values are letters alone, or single digits. -/
theorem not_isBoolean_of_mem {c : Char} (hc : c = '-' ∨ c = '.') (hs : c ∈ s.toList) : ¬ isBoolean s = true := by
  intro h
  have hwords : ∀ w ∈ booleanWords, '-' ∉ w.toList ∧ '.' ∉ w.toList := by decide
  have hword := hwords _ (List.contains_iff_mem.mp h)
  rcases hc with rfl | rfl
  · exact hword.1 (Text.mem_lower (by decide) hs)
  · exact hword.2 (Text.mem_lower (by decide) hs)

theorem not_isBoolean_of_isDated (h : isDated s = true) : ¬ isBoolean s = true :=
  not_isBoolean_of_mem (.inl rfl) (isDated_cases h).2

theorem isInteger_of_isBoolean (hdecimal : isDecimal s = true) (h : isBoolean s = true) : isInteger s = true := by
  rcases isDecimal_cases hdecimal with hinteger | ⟨hdot, -⟩
  · exact hinteger
  · exact absurd h (not_isBoolean_of_mem (.inr rfl) hdot)

end

/-! ## The order of the types -/

def isWithin : SampleType → SampleType → Bool
  | integer, decimal => true
  | integer, boolean => true
  | _, string => true
  | a, b => a == b

instance : LE SampleType :=
  ⟨fun a b => a.isWithin b⟩

instance : DecidableLE SampleType := fun a b =>
  inferInstanceAs (Decidable (a.isWithin b = true))

instance : PartialOrder SampleType where
  le_refl a := by cases a <;> decide
  le_trans a b c := by cases a <;> cases b <;> cases c <;> decide
  le_antisymm a b := by cases a <;> cases b <;> decide

def admits : SampleType → String → Bool
  | integer => isInteger
  | decimal => isDecimal
  | date => isDated
  | boolean => isBoolean
  | string => fun _ => true

theorem admits_ofSamples {samples : List String} : ∀ s ∈ samples, (ofSamples samples).admits s = true := by
  unfold ofSamples
  intro s hs
  split
  · rfl
  · split
    · exact List.all_eq_true.mp ‹_› s hs
    · split
      · exact List.all_eq_true.mp ‹_› s hs
      · split
        · exact List.all_eq_true.mp ‹_› s hs
        · split
          · exact List.all_eq_true.mp ‹_› s hs
          · rfl

theorem ofSamples_eq_integer {samples : List String} (hne : samples ≠ []) (h : samples.all isInteger = true) :
    ofSamples samples = integer := by
  rw [ofSamples, List.isEmpty_eq_false_iff.mpr hne, h]
  rfl

/-- The inferred type is the least one whose rule every sample meets. -/
theorem ofSamples_le {samples : List String} (hne : samples ≠ []) {t : SampleType}
    (h : ∀ s ∈ samples, t.admits s = true) : ofSamples samples ≤ t := by
  obtain ⟨s, hs⟩ := List.exists_mem_of_ne_nil _ hne
  have hnone : samples.isEmpty = false := List.isEmpty_eq_false_iff.mpr hne
  cases t with
  | integer => exact (ofSamples_eq_integer hne (List.all_eq_true.mpr h)).le
  | decimal =>
    have hall : samples.all isDecimal = true := List.all_eq_true.mpr h
    by_cases hinteger : samples.all isInteger = true
    · rw [ofSamples_eq_integer hne hinteger]
      decide
    · simp [ofSamples, hnone, hinteger, hall]
  | date =>
    have hall : samples.all isDated = true := List.all_eq_true.mpr h
    have hdecimal : ¬ samples.all isDecimal = true := fun hdecimal =>
      not_isDecimal_of_isDated (h s hs) (List.all_eq_true.mp hdecimal s hs)
    have hinteger : ¬ samples.all isInteger = true := fun hinteger =>
      not_isDecimal_of_isDated (h s hs) (isDecimal_of_isInteger (List.all_eq_true.mp hinteger s hs))
    simp [ofSamples, hnone, hinteger, hdecimal, hall]
  | boolean =>
    have hall : samples.all isBoolean = true := List.all_eq_true.mpr h
    have hdated : ¬ samples.all isDated = true := fun hdated =>
      not_isBoolean_of_isDated (List.all_eq_true.mp hdated s hs) (h s hs)
    by_cases hinteger : samples.all isInteger = true
    · rw [ofSamples_eq_integer hne hinteger]
      decide
    · -- samples that are decimals and truth words would all be integers
      have hdecimal : ¬ samples.all isDecimal = true := fun hdecimal =>
        hinteger (List.all_eq_true.mpr fun s hs => isInteger_of_isBoolean (List.all_eq_true.mp hdecimal s hs) (h s hs))
      simp [ofSamples, hnone, hinteger, hdecimal, hdated, hall]
  | string =>
    cases ofSamples samples <;> decide

theorem ofSamples_mono {xs zs : List String} (hne : xs ≠ []) (h : xs ⊆ zs) : ofSamples xs ≤ ofSamples zs :=
  ofSamples_le hne fun s hs => admits_ofSamples s (h hs)

end SampleType

/-! ## Types of a schema -/

namespace Schema.SimpleType

def isWithin : SimpleType → SimpleType → Bool
  | integer, decimal => true
  | integer, boolean => true
  | date, dateTime => true
  | _, string => true
  | a, b => a == b

instance : LE SimpleType :=
  ⟨fun a b => a.isWithin b⟩

instance : DecidableLE SimpleType := fun a b =>
  inferInstanceAs (Decidable (a.isWithin b = true))

instance : PartialOrder SimpleType where
  le_refl a := by cases a <;> decide
  le_trans a b c := by cases a <;> cases b <;> cases c <;> decide
  le_antisymm a b := by cases a <;> cases b <;> decide

/-- The type for samples of a coarse type, whatever the dates among them look like. -/
def ofSampleType : SampleType → SimpleType
  | .integer => integer
  | .decimal => decimal
  | .date => dateTime
  | .boolean => boolean
  | .string => string

theorem ofSampleType_mono {a b : SampleType} (h : a ≤ b) : ofSampleType a ≤ ofSampleType b := by
  revert h
  cases a <;> cases b <;> decide

theorem ofSamples_eq (samples : List String) :
    ofSamples samples =
      if SampleType.ofSamples samples = .date ∧ samples.all SampleType.isDate = true then date
      else ofSampleType (SampleType.ofSamples samples) := by
  unfold ofSamples
  cases SampleType.ofSamples samples <;> simp [ofSampleType]

theorem ofSamples_le_ofSampleType (samples : List String) :
    ofSamples samples ≤ ofSampleType (SampleType.ofSamples samples) := by
  rw [ofSamples_eq]
  split
  · rename_i h
    rw [h.1]
    decide
  · exact le_refl _

theorem ofSamples_mono {xs zs : List String} (hne : xs ≠ []) (h : xs ⊆ zs) : ofSamples xs ≤ ofSamples zs := by
  have hkind := SampleType.ofSamples_mono hne h
  rw [ofSamples_eq zs]
  split
  · rename_i hzs
    -- nothing is below the dates, and dates without a time are so in every part of the samples
    have hdate : SampleType.ofSamples xs = .date := by
      rw [hzs.1] at hkind
      revert hkind
      cases SampleType.ofSamples xs <;> decide
    have hall : xs.all SampleType.isDate = true :=
      List.all_eq_true.mpr fun s hs => List.all_eq_true.mp hzs.2 s (h hs)
    rw [ofSamples_eq, if_pos ⟨hdate, hall⟩]
  · exact (ofSamples_le_ofSampleType xs).trans (ofSampleType_mono hkind)

end Schema.SimpleType

open Schema

/-- **More samples only widen the inferred types**, and only the set of samples counts. -/
theorem ofSamples_widens (xs ys zs : List String) :
    (xs ≠ [] →
      SampleType.ofSamples xs ≤ SampleType.ofSamples (xs ++ ys) ∧
        SimpleType.ofSamples xs ≤ SimpleType.ofSamples (xs ++ ys)) ∧
      ((∀ s, s ∈ xs ↔ s ∈ zs) →
        SampleType.ofSamples xs = SampleType.ofSamples zs ∧
          SimpleType.ofSamples xs = SimpleType.ofSamples zs) := by
  constructor
  · intro hne
    have hsub : xs ⊆ xs ++ ys := List.subset_append_left xs ys
    exact ⟨SampleType.ofSamples_mono hne hsub, SimpleType.ofSamples_mono hne hsub⟩
  · intro hsame
    have hxs : xs ⊆ zs := fun s => (hsame s).mp
    have hzs : zs ⊆ xs := fun s => (hsame s).mpr
    by_cases hne : xs = []
    · subst hne
      rw [List.subset_nil.mp hzs]
      exact ⟨rfl, rfl⟩
    · have hne' : zs ≠ [] := fun hnil => hne (List.subset_nil.mp (hnil ▸ hxs))
      exact ⟨le_antisymm (SampleType.ofSamples_mono hne hxs) (SampleType.ofSamples_mono hne' hzs),
        le_antisymm (SimpleType.ofSamples_mono hne hxs) (SimpleType.ofSamples_mono hne' hzs)⟩

theorem ofSamples_widens_truth :
    ["1", "0"] ≠ [] ∧ (∀ s, s ∈ ["1", "0"] ↔ s ∈ ["0", "1", "0"]) ∧
      SimpleType.ofSamples ["1", "0"] = .integer ∧ SimpleType.ofSamples ["1", "0", "No"] = .boolean ∧
      SimpleType.ofSamples ["1", "0"] ≤ SimpleType.ofSamples ["1", "0", "No"] ∧
      SimpleType.ofSamples ["1", "0"] = SimpleType.ofSamples ["0", "1", "0"] := by
  have hne : ["1", "0"] ≠ [] := by decide
  have hsame : ∀ s, s ∈ ["1", "0"] ↔ s ∈ ["0", "1", "0"] := by grind
  obtain ⟨hwider, hset⟩ := ofSamples_widens ["1", "0"] ["No"] ["0", "1", "0"]
  exact ⟨hne, hsame, by decide +kernel, by decide +kernel, (hwider hne).2, (hset hsame).2⟩

end XmlShape
