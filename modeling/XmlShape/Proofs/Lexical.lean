import XmlShape.Proofs.Parts
import XmlShape.Schema.Basic
import XmlShape.Xml.Char

/-! # Texts of the built-in types

The lexical spaces of XML Schema 1.0, of texts whose white space is collapsed. None but that of strings has a text with
white space in it. -/

namespace XmlShape

namespace Lexical

/-! ## White space -/

def Solid (cs : List Char) : Prop :=
  ∀ c ∈ cs, Xml.isSpace c = false

instance (cs : List Char) : Decidable (Solid cs) :=
  decidable_of_iff (cs.all (! Xml.isSpace ·) = true) (by simp [Solid])

/-- There are four characters of white space. -/
theorem of_isSpace {p : Char → Bool} (h : [' ', '\n', '\t', '\r'].all p = true) {c : Char}
    (hc : Xml.isSpace c = true) : p c = true := by
  refine List.all_eq_true.mp h c ?_
  simpa [Xml.isSpace, or_assoc] using hc

def words (cs : List Char) : List (List Char) :=
  (cs.splitOnP Xml.isSpace).filter (! ·.isEmpty)

def collapse (cs : List Char) : List Char :=
  [' '].intercalate (words cs)

theorem flatten_words (cs : List Char) : (words cs).flatten = cs.filter (! Xml.isSpace ·) := by
  rw [words, List.flatten_filter_not_isEmpty]
  induction cs with
  | nil => simp
  | cons c cs ih =>
    rw [List.splitOnP_cons_eq_if_modifyHead, List.filter_cons, ← ih]
    cases hpieces : cs.splitOnP Xml.isSpace with
    | nil => exact absurd hpieces (List.splitOnP_ne_nil _ _)
    | cons piece pieces => cases Xml.isSpace c <;> rfl

theorem words_eq_nil_iff {cs : List Char} : words cs = [] ↔ ∀ c ∈ cs, Xml.isSpace c = true := by
  have hpieces : words cs = [] ↔ (words cs).flatten = [] := by
    rw [List.flatten_eq_nil_iff]
    refine ⟨fun h => by simp [h], fun h => List.eq_nil_iff_forall_not_mem.mpr fun w hw => ?_⟩
    have hne := (List.mem_filter.mp hw).2
    rw [h w hw] at hne
    cases hne
  simp [hpieces, flatten_words]

/-- A word ends where white space begins. -/
theorem words_append {w after : List Char} (hne : w ≠ []) (hw : Solid w)
    (hafter : ∀ c ∈ after.head?, Xml.isSpace c = true) : words (w ++ after) = w :: words after := by
  cases after with
  | nil => simp [words, List.splitOnP_eq_singleton hw, hne]
  | cons c cs =>
    have hc := hafter c rfl
    rw [words, words, List.splitOnP_append_cons_of_forall_mem hw c hc, List.splitOnP_cons_eq_if_modifyHead, if_pos hc]
    simp [hne]

/-- A text begins with a word, or with white space. -/
theorem exists_word (cs : List Char) :
    ∃ w after, cs = w ++ after ∧ Solid w ∧ ∀ c ∈ after.head?, Xml.isSpace c = true := by
  refine ⟨cs.takeWhile (! Xml.isSpace ·), cs.dropWhile (! Xml.isSpace ·), List.takeWhile_append_dropWhile.symm,
    fun c hc => ?_, fun c hc => ?_⟩
  · simpa using List.mem_takeWhile_imp hc
  · have hstop := List.head?_dropWhile_not (! Xml.isSpace ·) cs
    rw [Option.mem_def.mp hc] at hstop
    simpa using hstop

/-- White space after a word is taken away, or a space stays between the word and more. -/
theorem collapse_append {w after : List Char} (hne : w ≠ []) (hw : Solid w)
    (hafter : ∀ c ∈ after.head?, Xml.isSpace c = true) :
    ∃ more, collapse (w ++ after) = w ++ more ∧ (' ' ∉ more → more = []) ∧
      (more = [] ↔ ∀ c ∈ after, Xml.isSpace c = true) := by
  rw [collapse, words_append hne hw hafter, ← words_eq_nil_iff]
  rcases eq_or_ne (words after) [] with h | h
  · exact ⟨[], by simp [h], fun _ => rfl, by simp [h]⟩
  · refine ⟨[' '] ++ [' '].intercalate (words after), ?_, by simp, by simp [h]⟩
    rw [List.intercalate_cons_of_ne_nil h, List.append_assoc]

theorem collapse_eq_self {cs : List Char} (hne : cs ≠ []) (h : Solid cs) :
    collapse cs = cs := by
  have hnone : ∀ c ∈ ([] : List Char).head?, Xml.isSpace c = true := nofun
  obtain ⟨more, hmore, -, hnil⟩ := collapse_append hne h hnone
  rw [hnil.mpr (List.forall_mem_nil _), List.append_nil] at hmore
  exact hmore

/-- What holds of all space characters holds of a collapsed text if it holds of the text. -/
theorem forall_mem_collapse {p : Char → Prop} (hspace : ∀ c, Xml.isSpace c = true → p c) {cs : List Char} :
    (∀ c ∈ collapse cs, p c) ↔ ∀ c ∈ cs, p c := by
  constructor
  · intro h c hc
    cases hcs : Xml.isSpace c with
    | true => exact hspace c hcs
    | false =>
      refine h c (Text.mem_intercalate ?_)
      rw [flatten_words, List.mem_filter]
      exact ⟨hc, by rw [hcs]; rfl⟩
  · intro h c hc
    rcases Text.mem_of_mem_intercalate hc with hc | hc
    · exact hspace c (by rw [List.mem_singleton.mp hc]; rfl)
    · rw [flatten_words] at hc
      exact h c (List.mem_filter.mp hc).1

/-! ## Numbers, days and times -/

def unsigned : List Char → List Char
  | c :: cs => if c == '+' || c == '-' then cs else c :: cs
  | [] => []

def isDecimal (cs : List Char) : Bool :=
  let whole := (unsigned cs).takeWhile Char.isDigit
  match (unsigned cs).dropWhile Char.isDigit with
  | [] => ! whole.isEmpty
  | c :: fraction => c == '.' && fraction.all Char.isDigit && ! (whole.isEmpty && fraction.isEmpty)

def number (cs : List Char) : Nat :=
  Nat.ofDigitChars 10 cs 0

def after? (c : Char) : List Char → Option (List Char)
  | d :: cs => if d == c then some cs else none
  | [] => none

def pair? : List Char → Option (Nat × List Char)
  | c :: d :: cs => if c.isDigit && d.isDigit then some (number [c, d], cs) else none
  | _ => none

/-- The number of a year and what follows it. A year has four digits, or more that do not begin with a zero. -/
def year? (cs : List Char) : Option (Nat × List Char) :=
  let digits := cs.takeWhile Char.isDigit
  if digits.length == 4 || (4 < digits.length && digits.head? != some '0') then
    some (number digits, cs.dropWhile Char.isDigit)
  else none

def fraction? : List Char → Option (List Char × List Char)
  | [] => some ([], [])
  | c :: cs =>
    if c == '.' then
      if (cs.takeWhile Char.isDigit).isEmpty then none
      else some (cs.takeWhile Char.isDigit, cs.dropWhile Char.isDigit)
    else some ([], c :: cs)

def daysIn (year month : Nat) : Nat :=
  if month = 2 then
    if year % 400 = 0 ∨ (year % 4 = 0 ∧ year % 100 ≠ 0) then 29 else 28
  else if month ∈ [4, 6, 9, 11] then 30
  else 31

/-- A day of the calendar, which has no year 0. -/
def isDay (year month day : Nat) : Bool :=
  1 ≤ year && 1 ≤ month && month ≤ 12 && 1 ≤ day && day ≤ daysIn year month

/-- A time of the day, or midnight at its end. -/
def isTime (hour minute second : Nat) (fraction : List Char) : Bool :=
  (hour < 24 && minute < 60 && second < 60) ||
    (hour == 24 && minute == 0 && second == 0 && fraction.all (· == '0'))

def afterDay? (cs : List Char) : Option (List Char) := do
  let (year, cs) ← year? (SampleType.unsigned cs)
  let (month, cs) ← pair? (← after? '-' cs)
  let (day, cs) ← pair? (← after? '-' cs)
  if isDay year month day then some cs else none

def afterTime? (cs : List Char) : Option (List Char) := do
  let (hour, cs) ← pair? cs
  let (minute, cs) ← pair? (← after? ':' cs)
  let (second, cs) ← pair? (← after? ':' cs)
  let (fraction, cs) ← fraction? cs
  if isTime hour minute second fraction then some cs else none

/-- What follows the hours and minutes by which a zone is off, 14 hours at most. -/
def afterOffset? (cs : List Char) : Option (List Char) := do
  let (hours, cs) ← pair? cs
  let (minutes, cs) ← pair? (← after? ':' cs)
  if (hours < 14 && minutes < 60) || (hours == 14 && minutes == 0) then some cs else none

def isZone : List Char → Bool
  | [] => true
  | c :: cs => (c == 'Z' && cs.isEmpty) || ((c == '+' || c == '-') && (afterOffset? cs).any List.isEmpty)

def isTimeOfDay (cs : List Char) : Bool :=
  ((after? 'T' cs).bind afterTime?).any isZone

end Lexical

namespace Schema.SimpleType

open Lexical

def isLexical : SimpleType → List Char → Bool
  | string, cs => cs.all Xml.isChar
  | integer, cs => SampleType.isDigits (unsigned cs)
  | decimal, cs => isDecimal cs
  | date, cs => (afterDay? cs).any isZone
  | dateTime, cs => (afterDay? cs).any isTimeOfDay
  | boolean, cs => ["true", "false", "1", "0"].contains (String.ofList cs)

/-- The text, with its white space collapsed, is of the type. -/
def accepts (t : SimpleType) (s : String) : Bool :=
  t.isLexical (collapse s.toList)

end Schema.SimpleType

namespace Lexical

/-! ## No white space inside -/

theorem isSpace_of_isDigit {c : Char} (h : c.isDigit = true) : Xml.isSpace c = false := by
  cases hc : Xml.isSpace c with
  | false => rfl
  | true =>
    have hdigit := of_isSpace (p := (! Char.isDigit ·)) (by decide) hc
    rw [h] at hdigit
    cases hdigit

section
variable {cs rest : List Char} (hrest : Solid rest)
include hrest

theorem solid_of_after? {c : Char} (hc : Xml.isSpace c = false) (h : after? c cs = some rest) :
    Solid cs := by
  unfold after? at h
  split at h
  · split at h
    · rename_i heq
      cases h
      rw [beq_iff_eq] at heq
      exact List.forall_mem_cons.mpr ⟨heq ▸ hc, hrest⟩
    · cases h
  · cases h

theorem solid_of_pair? {n : Nat} (h : pair? cs = some (n, rest)) : Solid cs := by
  unfold pair? at h
  split at h
  · split at h
    · rename_i hdigits
      cases h
      rw [Bool.and_eq_true] at hdigits
      exact List.forall_mem_cons.mpr ⟨isSpace_of_isDigit hdigits.1,
        List.forall_mem_cons.mpr ⟨isSpace_of_isDigit hdigits.2, hrest⟩⟩
    · cases h
  · cases h

theorem solid_of_dropWhile (h : cs.dropWhile Char.isDigit = rest) : Solid cs := by
  rw [← List.takeWhile_append_dropWhile (p := Char.isDigit) (l := cs), h]
  exact List.forall_mem_append.mpr ⟨fun d hd => isSpace_of_isDigit (List.mem_takeWhile_imp hd), hrest⟩

theorem solid_of_fraction? {digits : List Char} (h : fraction? cs = some (digits, rest)) :
    Solid cs := by
  unfold fraction? at h
  split at h
  · exact List.forall_mem_nil _
  · split at h
    · rename_i hpoint
      split at h
      · cases h
      · cases h
        rw [beq_iff_eq] at hpoint
        exact List.forall_mem_cons.mpr ⟨hpoint ▸ by decide, solid_of_dropWhile hrest rfl⟩
    · cases h
      exact hrest

theorem solid_of_afterTime? (h : afterTime? cs = some rest) : Solid cs := by
  simp only [afterTime?, Option.bind_eq_bind, Option.bind_eq_some_iff, Option.ite_none_right_eq_some, Prod.exists,
    Option.some.injEq] at h
  obtain ⟨hour, _, hhour, _, hminutes, minute, _, hminute, _, hseconds, second, _, hsecond, h⟩ := h
  obtain ⟨fraction, _, hfraction, -, rfl⟩ := h
  have hcolon : Xml.isSpace ':' = false := by decide
  have hsolid := solid_of_pair? (solid_of_fraction? hrest hfraction) hsecond
  have hsolid := solid_of_pair? (solid_of_after? hsolid hcolon hseconds) hminute
  exact solid_of_pair? (solid_of_after? hsolid hcolon hminutes) hhour

theorem solid_of_afterOffset? (h : afterOffset? cs = some rest) : Solid cs := by
  simp only [afterOffset?, Option.bind_eq_bind, Option.bind_eq_some_iff, Option.ite_none_right_eq_some, Prod.exists,
    Option.some.injEq] at h
  obtain ⟨hours, _, hhours, _, hcut, minutes, _, hminutes, -, rfl⟩ := h
  have hsolid := solid_of_after? (solid_of_pair? hrest hminutes) (by decide) hcut
  exact solid_of_pair? hsolid hhours

end

theorem solid_of_isZone {zone : List Char} (h : isZone zone = true) : Solid zone := by
  unfold isZone at h
  split at h
  · exact List.forall_mem_nil _
  · simp only [Bool.or_eq_true, Bool.and_eq_true, beq_iff_eq, List.isEmpty_iff, Option.any_eq_true] at h
    rcases h with ⟨rfl, rfl⟩ | ⟨hsign, _, hoffset, rfl⟩
    · decide
    · refine List.forall_mem_cons.mpr ⟨?_, solid_of_afterOffset? (List.forall_mem_nil _) hoffset⟩
      rcases hsign with rfl | rfl <;> decide

theorem solid_of_isTimeOfDay {time : List Char} (h : isTimeOfDay time = true) : Solid time := by
  simp only [isTimeOfDay, Option.any_eq_true, Option.bind_eq_some_iff] at h
  obtain ⟨zone, ⟨cs, hcs, htime⟩, hzone⟩ := h
  exact solid_of_after? (solid_of_afterTime? (solid_of_isZone hzone) htime) (by decide) hcs

end Lexical

end XmlShape
