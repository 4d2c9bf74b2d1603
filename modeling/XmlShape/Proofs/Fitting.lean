import XmlShape.Proofs.Lexical
import XmlShape.Proofs.Widening
import XmlShape.Text.Blank

/-! # Samples that fit their type

A type is inferred by a rule that is not its lexical space. Integers and decimals that meet the rule are in the space.
The other rules let some texts pass: truth words that are not in lowercase or are yes and no, days that no calendar
has, and points in time that break off or go on. -/

namespace XmlShape

namespace Lexical

/-! ## Texts that meet a rule -/

section
variable {s : String}

theorem unsigned_cases (cs : List Char) :
    (∃ ds, cs = '-' :: ds ∧ SampleType.unsigned cs = ds) ∨ SampleType.unsigned cs = cs := by
  unfold SampleType.unsigned
  split
  · exact .inl ⟨_, rfl, rfl⟩
  · exact .inr rfl

/-- A decimal has no white space to lose, and no sign but a minus. -/
theorem plain_of_isDecimal (h : SampleType.isDecimal s = true) :
    collapse s.toList = s.toList ∧ unsigned s.toList = SampleType.unsigned s.toList := by
  have hchars := SampleType.mem_unsigned_of_isDecimal h
  have hsolid : Solid (SampleType.unsigned s.toList) := fun c hc =>
    (hchars c hc).elim isSpace_of_isDigit fun hpoint => hpoint ▸ by decide
  have hne : SampleType.unsigned s.toList ≠ [] := by
    intro hnil
    rw [SampleType.isDecimal, hnil] at h
    cases h
  rcases unsigned_cases s.toList with ⟨ds, hs, hds⟩ | hs
  · rw [hds] at hsolid ⊢
    rw [hs]
    exact ⟨collapse_eq_self (by simp) (List.forall_mem_cons.mpr ⟨by decide, hsolid⟩), rfl⟩
  · rw [hs] at hchars hsolid hne ⊢
    refine ⟨collapse_eq_self hne hsolid, ?_⟩
    cases hcs : s.toList with
    | nil => exact absurd hcs hne
    | cons c cs =>
      have hsign : ¬ (c == '+' || c == '-') = true := by
        intro hsign
        rw [Bool.or_eq_true, beq_iff_eq, beq_iff_eq] at hsign
        have hc := hchars c (hcs ▸ List.mem_cons_self)
        rcases hsign with rfl | rfl <;> exact absurd hc (by decide)
      exact if_neg hsign

/-- The characters one to four, six and seven, and nine and ten are numbers of a day. -/
def inCalendar (cs : List Char) : Bool :=
  isDay (number (cs.take 4)) (number ((cs.drop 5).take 2)) (number ((cs.drop 8).take 2))

/-- A text that begins like a date begins with ten characters, which are a date if they are in the calendar. -/
theorem exists_date {rest : List Char} (h : SampleType.afterDate? s.toList = some rest) :
    ∃ ten, s.toList = ten ++ rest ∧ ten.length = 10 ∧ Solid ten ∧
      ∀ more, afterDay? (ten ++ more) = if inCalendar ten = true then some more else none := by
  unfold SampleType.afterDate? at h
  split at h
  · rename_i y₁ y₂ y₃ y₄ m₁ m₂ d₁ d₂ tail hs
    split at h
    · rename_i hdigits
      cases h
      simp only [List.all_cons, List.all_nil, Bool.and_true, Bool.and_eq_true] at hdigits
      obtain ⟨hy₁, hy₂, hy₃, hy₄, hm₁, hm₂, hd₁, hd₂⟩ := hdigits
      refine ⟨[y₁, y₂, y₃, y₄, '-', m₁, m₂, '-', d₁, d₂], hs, rfl, ?_, fun more => ?_⟩
      · have hhyphen : Xml.isSpace '-' = false := by decide
        simp [Solid, isSpace_of_isDigit, *]
      · have hyear : y₁ ≠ '-' := by
          rintro rfl
          cases hy₁
        have hunsigned : ∀ cs, SampleType.unsigned (y₁ :: cs) = y₁ :: cs := fun cs =>
          (unsigned_cases _).resolve_left fun ⟨_, heq, _⟩ => hyear (List.cons.inj heq).1
        simp [afterDay?, year?, pair?, after?, inCalendar, *]
    · cases h
  · cases h

theorem inCalendar_append {ten : List Char} (h : ten.length = 10) (rest : List Char) :
    inCalendar (ten ++ rest) = inCalendar ten := by
  have htake : ∀ n m, n + m ≤ 10 → ((ten ++ rest).drop n).take m = (ten.drop n).take m := fun n m hnm => by
    rw [List.drop_append_of_le_length (by omega), List.take_append_of_le_length (by simp; omega)]
  have hyear := htake 0 4 (by decide)
  rw [List.drop_zero, List.drop_zero] at hyear
  rw [inCalendar, inCalendar, hyear, htake 5 2 (by decide), htake 8 2 (by decide)]

end

end Lexical

namespace Schema.SimpleType

open Lexical

/-- What the rule by which the type is inferred leaves open. -/
def Fits : SimpleType → String → Prop
  | string, s => ∀ c ∈ s.toList, Xml.isChar c = true
  | integer, _ => True
  | decimal, _ => True
  | date, s => inCalendar s.toList = true
  | dateTime, s =>
    inCalendar s.toList = true ∧
      ∃ time after, s.toList.drop 10 = time ++ after ∧ isTimeOfDay time = true ∧ ∀ c ∈ after, Xml.isSpace c = true
  | boolean, s => Text.lower s = s ∧ s ≠ "yes" ∧ s ≠ "no"

section
variable {s : String}

theorem accepts_string : accepts string s = true ↔ Fits string s := by
  rw [accepts, isLexical, List.all_eq_true]
  exact forall_mem_collapse fun c => of_isSpace (by decide)

theorem accepts_integer (h : SampleType.isInteger s = true) : accepts integer s = true := by
  obtain ⟨hself, hunsigned⟩ := plain_of_isDecimal (SampleType.isDecimal_of_isInteger h)
  rw [accepts, isLexical, hself, hunsigned]
  exact h

theorem accepts_decimal (h : SampleType.isDecimal s = true) : accepts decimal s = true := by
  obtain ⟨hself, hunsigned⟩ := plain_of_isDecimal h
  rw [accepts, isLexical, hself, isDecimal, hunsigned]
  rw [SampleType.isDecimal, Bool.and_eq_true, SampleType.isDigits, Bool.and_eq_true] at h
  obtain ⟨⟨hwhole, -⟩, hfraction⟩ := h
  cases hrest : (SampleType.unsigned s.toList).dropWhile Char.isDigit with
  | nil => exact hwhole
  | cons c cs =>
    rw [hrest, SampleType.isFraction, Bool.and_eq_true, SampleType.isDigits, Bool.and_eq_true] at hfraction
    simp_all

theorem accepts_boolean (h : SampleType.isBoolean s = true) : accepts boolean s = true ↔ Fits boolean s := by
  have hword : Text.lower s ∈ SampleType.booleanWords := List.contains_iff_mem.mp h
  have hwords : ∀ w ∈ SampleType.booleanWords, Solid w.toList := by decide
  -- white space would stay where the text is lowercased
  have hsolid : Solid s.toList := by
    intro c hc
    cases hspace : Xml.isSpace c with
    | false => rfl
    | true =>
      have hcode := of_isSpace (p := (decide <| Char.toNat · < 65)) (by decide) hspace
      exact hspace.symm.trans (hwords _ hword c (Text.mem_lower (of_decide_eq_true hcode) hc))
  have hne : s.toList ≠ [] := by
    intro hnil
    rw [String.toList_eq_nil_iff.mp hnil] at hword
    revert hword
    decide +kernel
  rw [accepts, isLexical, collapse_eq_self hne hsolid, String.ofList_toList, List.contains_iff_mem, Fits]
  constructor
  · intro hs
    have hall : ∀ w ∈ ["true", "false", "1", "0"], Text.lower w = w ∧ w ≠ "yes" ∧ w ≠ "no" := by decide +kernel
    exact hall s hs
  · rintro ⟨hlower, hyes, hno⟩
    rw [hlower] at hword
    simp only [SampleType.booleanWords, List.mem_cons, List.not_mem_nil, or_false] at hword ⊢
    grind

theorem accepts_date (h : SampleType.isDate s = true) : accepts date s = true ↔ Fits date s := by
  rw [SampleType.isDate, Option.any_eq_true] at h
  obtain ⟨rest, hrest, hempty⟩ := h
  obtain ⟨ten, hs, hlength, hsolid, hday⟩ := exists_date hrest
  rw [List.isEmpty_iff] at hempty
  have hne : ten ≠ [] := List.ne_nil_of_length_pos (by omega)
  have hself := hday []
  rw [hempty, List.append_nil] at hs
  rw [List.append_nil] at hself
  rw [accepts, isLexical, Fits, hs, collapse_eq_self hne hsolid, hself]
  cases inCalendar ten <;> simp [isZone]

theorem accepts_dateTime (h : SampleType.isDated s = true) : accepts dateTime s = true ↔ Fits dateTime s := by
  obtain ⟨rest, hrest⟩ := Option.isSome_iff_exists.mp h
  obtain ⟨ten, hs, hlength, hsolid, hday⟩ := exists_date hrest
  have hdrop : (ten ++ rest).drop 10 = rest := hlength ▸ List.drop_left
  have hne : ∀ time, ten ++ time ≠ [] := fun time => List.ne_nil_of_length_pos (by simp; omega)
  rw [accepts, isLexical, Fits, hs, hdrop, inCalendar_append hlength]
  constructor
  · -- the white space after the day and the word behind it is at the end, or some of it would stay
    obtain ⟨time, after, rfl, htime, hafter⟩ := exists_word rest
    obtain ⟨more, hmore, hspace, hnil⟩ :=
      collapse_append (hne time) (List.forall_mem_append.mpr ⟨hsolid, htime⟩) hafter
    rw [← List.append_assoc, hmore, List.append_assoc, hday]
    intro h
    simp only [Option.any_eq_true, Option.ite_none_right_eq_some, Option.some.injEq] at h
    obtain ⟨_, ⟨hcalendar, rfl⟩, h⟩ := h
    have hone : more = [] := hspace fun hmem =>
      absurd (solid_of_isTimeOfDay h ' ' (List.mem_append_right time hmem)) (by decide)
    rw [hone, List.append_nil] at h
    exact ⟨hcalendar, time, after, rfl, h, hnil.mp hone⟩
  · rintro ⟨hcalendar, time, after, hrest, htime, hafter⟩
    have hhead : ∀ c ∈ after.head?, Xml.isSpace c = true := fun c hc => hafter c (List.mem_of_mem_head? hc)
    obtain ⟨more, hmore, -, hnil⟩ :=
      collapse_append (hne time) (List.forall_mem_append.mpr ⟨hsolid, solid_of_isTimeOfDay htime⟩) hhead
    rw [hrest, ← List.append_assoc, hmore, hnil.mpr hafter, List.append_nil, hday, if_pos hcalendar]
    exact htime

end

/-- The inferred type has just the samples that fit. -/
theorem accepts_ofSamples {samples : List String} :
    ∀ s ∈ samples, (ofSamples samples).accepts s = true ↔ (ofSamples samples).Fits s := by
  intro s hs
  have hrule := SampleType.admits_ofSamples s hs
  rw [ofSamples_eq]
  split
  · rename_i hdates
    exact accepts_date (List.all_eq_true.mp hdates.2 s hs)
  · revert hrule
    cases SampleType.ofSamples samples with
    | integer => exact fun h => iff_of_true (accepts_integer h) trivial
    | decimal => exact fun h => iff_of_true (accepts_decimal h) trivial
    | date => exact accepts_dateTime
    | boolean => exact accepts_boolean
    | string => exact fun _ => accepts_string

end Schema.SimpleType

open Schema

theorem type_ofSummary {s : Summary} {type : SimpleType}
    (h : (ElementDecl.ofSummary s).content = .typed type ∨
      ∃ as, (ElementDecl.ofSummary s).content = .extended type as) :
    type = SimpleType.ofSamples s.texts := by
  obtain ⟨name, counts, mixed, texts, attributes, children⟩ := s
  simp only [ElementDecl.ofSummary] at h
  grind

theorem type_attribute_ofSummary {elements : Int} {a : AttributeSummary} {type : SimpleType}
    (h : (AttributeDecl.ofSummary elements a).type = .simple type) :
    type = SimpleType.ofSamples a.values.toList := by
  rw [AttributeDecl.ofSummary] at h
  grind

/-- **A schema rejects, of the texts and values that its types are inferred from, those that do not fit.** -/
theorem ofSamples_accepts_iff :
    (∀ (samples : List String), ∀ s ∈ samples,
      (SimpleType.ofSamples samples).accepts s = true ↔ (SimpleType.ofSamples samples).Fits s) ∧
      (∀ (s : Summary) (type : SimpleType), (ElementDecl.ofSummary s).content = .typed type ∨
          (∃ as, (ElementDecl.ofSummary s).content = .extended type as) →
        ∀ text ∈ s.texts, type.accepts text = true ↔ type.Fits text) ∧
      ∀ (elements : Int) (a : AttributeSummary) (type : SimpleType),
        (AttributeDecl.ofSummary elements a).type = .simple type →
          ∀ value ∈ a.values, type.accepts value = true ↔ type.Fits value := by
  refine ⟨fun samples => SimpleType.accepts_ofSamples, fun s type h => ?_, fun elements a type h => ?_⟩
  · rw [type_ofSummary h]
    exact SimpleType.accepts_ofSamples
  · rw [type_attribute_ofSummary h]
    exact SimpleType.accepts_ofSamples

/-- A visit at a known time, with white space after it, and one on a known day. -/
theorem ofSamples_accepts_iff_visits :
    let visits := ["2024-02-29T10:00:00Z \n", "2024-03-01"]
    SimpleType.ofSamples visits = .dateTime ∧
      ("2024-02-29T10:00:00Z \n" ∈ visits ∧ SimpleType.accepts .dateTime "2024-02-29T10:00:00Z \n" = true ∧
        SimpleType.Fits .dateTime "2024-02-29T10:00:00Z \n") ∧
      "2024-03-01" ∈ visits ∧ ¬ SimpleType.accepts .dateTime "2024-03-01" = true ∧
        ¬ SimpleType.Fits .dateTime "2024-03-01" := by
  intro visits
  have htype : SimpleType.ofSamples visits = .dateTime := by decide +kernel
  have hiff := ofSamples_accepts_iff.1 visits
  rw [htype, List.forall_mem_cons, List.forall_mem_singleton] at hiff
  obtain ⟨htime, hday⟩ := hiff
  have hwhole : SimpleType.accepts .dateTime "2024-02-29T10:00:00Z \n" = true := by decide +kernel
  have hpart : ¬ SimpleType.accepts .dateTime "2024-03-01" = true := by decide +kernel
  exact ⟨htype, ⟨by simp [visits], hwhole, htime.mp hwhole⟩, by simp [visits], hpart, hday.not.mp hpart⟩

/-- The truth words yes and no are not of the type that they suggest. -/
theorem not_forall_accepts_ofSamples :
    ¬ ∀ samples : List String, samples ≠ [] → (∀ s ∈ samples, Text.trim s = s) →
      ∀ s ∈ samples, (SimpleType.ofSamples samples).accepts s = true := by
  intro h
  have hrejected : ¬ (SimpleType.ofSamples ["yes", "no"]).accepts "yes" = true := by decide +kernel
  exact hrejected (h ["yes", "no"] (by simp) (by decide +kernel) "yes" (by simp))

end XmlShape
