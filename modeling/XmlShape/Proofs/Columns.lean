import Mathlib.Data.List.Forall2
import XmlShape.Proofs.Parts
import XmlShape.Tags

/-! # The columns of the table of tags

No count has more digits than the greatest, so all names of a table begin at one place. Any line tells which: it
begins with spaces and digits, and the name comes two characters after these. So a table can be read back, and no two
lists of tags make the same one (`render_columns`). -/

namespace XmlShape.TagCount

/-! ## Rows -/

structure Tabular (t : TagCount) : Prop where
  nonneg : 0 ≤ t.count
  one_line : '\n' ∉ t.name.toList

/-- The line of a tag: its count ends at the column `width`, and its name begins two characters after it. -/
structure IsRow (width : Nat) (t : TagCount) (l : List Char) : Prop where
  count : ∃ gap, l.take width = List.replicate gap ' ' ++ (toString t.count).toList
  between : (l.drop width).take 2 = [' ', ' ']
  name : l.drop (width + 2) = t.name.toList

def readRow (width : Nat) (l : List Char) : TagCount :=
  ⟨String.ofList (l.drop (width + 2)), (Nat.ofDigitChars 10 ((l.take width).dropWhile (· == ' ')) 0 : Nat)⟩

def countEnd (l : List Char) : Nat :=
  l.length - ((l.dropWhile (· == ' ')).dropWhile Char.isDigit).length

/-- The tags of a table; the first line shows where its counts end. -/
def readTable (text : String) : List TagCount :=
  let lines := text.toList.splitOn '\n'
  if text = "" then [] else lines.map (readRow (countEnd (lines.headD [])))

section
variable {width : Nat} {t : TagCount} {l : List Char}

/-- A count that is no wider than the column fills it up from the right. -/
theorem isRow_alignRight (h : (toString t.count).length ≤ width) :
    IsRow width t (Text.alignRight width (toString t.count) ++ "  " ++ t.name).toList := by
  have hwidth : (Text.alignRight width (toString t.count)).toList.length = width := by
    rw [Text.alignRight, String.length_toList, String.length_append, String.length_ofList, List.length_replicate]
    omega
  rw [String.toList_append, String.toList_append, List.append_assoc]
  refine ⟨⟨width - (toString t.count).length, (List.take_left' hwidth).trans ?_⟩, ?_, ?_⟩
  · rw [Text.alignRight, String.toList_append, String.toList_ofList]
  · rw [List.drop_left' hwidth]
    rfl
  · rw [← List.drop_drop, List.drop_left' hwidth]
    rfl

theorem IsRow.drop_eq (hrow : IsRow width t l) : l.drop width = ' ' :: ' ' :: t.name.toList := by
  rw [← List.take_append_drop 2 (l.drop width), hrow.between, List.drop_drop, hrow.name]
  rfl

theorem toList_count (ht : 0 ≤ t.count) : (toString t.count).toList = Nat.toDigits 10 t.count.toNat := by
  obtain ⟨name, count⟩ := t
  obtain ⟨n, rfl⟩ := Int.eq_ofNat_of_zero_le ht
  exact Text.toList_toString n

theorem isDigit_of_mem_count (ht : 0 ≤ t.count) : ∀ c ∈ (toString t.count).toList, c.isDigit = true := by
  rw [toList_count ht]
  exact fun c hc => Nat.isDigit_of_mem_toDigits (by decide) (by decide) hc

theorem dropWhile_spaces (ht : 0 ≤ t.count) (gap : Nat) (rest : List Char) :
    (List.replicate gap ' ' ++ (toString t.count).toList ++ rest).dropWhile (· == ' ') =
      (toString t.count).toList ++ rest := by
  have hspaces : ∀ c ∈ List.replicate gap ' ', (c == ' ') = true := by simp
  have hdigits := isDigit_of_mem_count ht
  rw [List.append_assoc, List.dropWhile_append_of_pos hspaces]
  cases hcount : (toString t.count).toList with
  | nil => exact absurd ((toList_count ht).symm.trans hcount) Nat.toDigits_ne_nil
  | cons c cs =>
    rw [hcount] at hdigits
    rw [List.cons_append, List.dropWhile_cons_of_neg]
    rw [beq_iff_eq]
    rintro rfl
    exact absurd (hdigits ' ' (List.mem_cons_self ..)) (by decide)

section
variable (hrow : IsRow width t l) (ht : 0 ≤ t.count)
include hrow ht

theorem IsRow.readRow_eq : readRow width l = t := by
  obtain ⟨gap, hcount⟩ := hrow.count
  have hread := dropWhile_spaces ht gap []
  rw [List.append_nil, List.append_nil] at hread
  rw [readRow, hrow.name, hcount, hread, toList_count ht, Nat.ofDigitChars_ten_toDigits, String.ofList_toList,
    Int.toNat_of_nonneg ht]

theorem IsRow.countEnd_eq : countEnd l = width := by
  obtain ⟨gap, hcount⟩ := hrow.count
  -- no digit follows the count, so what is left begins at the column
  have hbehind : (l.dropWhile (· == ' ')).dropWhile Char.isDigit = l.drop width := by
    conv_lhs => rw [← List.take_append_drop width l, hcount]
    rw [dropWhile_spaces ht, List.dropWhile_append_of_pos (isDigit_of_mem_count ht), hrow.drop_eq]
    rfl
  have hlength := congrArg List.length hrow.drop_eq
  rw [List.length_drop, List.length_cons] at hlength
  rw [countEnd, hbehind, List.length_drop]
  omega

end

end

/-! ## Tables -/

theorem max?_greatest {ts : List TagCount} (h : ts ≠ []) : (ts.map (·.count)).max? = some (greatest ts) := by
  cases ts with
  | nil => exact absurd rfl h
  | cons t ts => rw [List.map_cons, List.max?_cons', List.foldl_map, greatest]

/-- A larger number has no fewer digits. -/
theorem length_toDigits_le {m n : Nat} (h : m ≤ n) : (Nat.toDigits 10 m).length ≤ (Nat.toDigits 10 n).length := by
  have hle : ∀ i, (Nat.toDigits 10 i).length ≤ (Nat.toDigits 10 n).length ↔ i < 10 ^ (Nat.toDigits 10 n).length :=
    fun i => Nat.length_toDigits_le_iff (by decide) Nat.length_toDigits_pos
  rw [hle]
  exact Nat.lt_of_le_of_lt h ((hle n).mp (Nat.le_refl _))

section
variable {ts : List TagCount} (hts : ∀ t ∈ ts, Tabular t)
include hts

theorem length_count_le {t : TagCount} (ht : t ∈ ts) :
    (toString t.count).length ≤ (toString (greatest ts)).length := by
  have hnonneg := (hts t ht).nonneg
  obtain ⟨hmem, hmost⟩ := List.max?_eq_some_iff.mp (max?_greatest (List.ne_nil_of_mem ht))
  obtain ⟨u, hu, hgreatest⟩ := List.mem_map.mp hmem
  have hle : t.count ≤ u.count := hgreatest ▸ hmost _ (List.mem_map_of_mem ht)
  rw [← hgreatest, ← String.length_toList, ← String.length_toList, toList_count hnonneg, toList_count (hts u hu).nonneg]
  exact length_toDigits_le (Int.toNat_le_toNat hle)

/-- Each tag has a row, and all rows of a table have one width. -/
theorem forall₂_isRow : List.Forall₂ (IsRow (toString (greatest ts)).length) ts ((lines ts).map String.toList) := by
  rw [lines, List.map_map]
  exact List.forall₂_map_right_iff.mpr
    (List.forall₂_same.mpr fun t ht => isRow_alignRight (length_count_le hts ht))

theorem splitOn_render (hne : ts ≠ []) : (render ts).toList.splitOn '\n' = (lines ts).map String.toList := by
  rw [render, String.toList_intercalate]
  refine List.splitOn_intercalate '\n' (fun l hl => ?_) (by simpa [lines] using hne)
  obtain ⟨line, hline, rfl⟩ := List.mem_map.mp hl
  obtain ⟨t, ht, rfl⟩ := List.mem_map.mp hline
  have hcount : '\n' ∉ (toString t.count).toList := fun h =>
    absurd (isDigit_of_mem_count (hts t ht).nonneg _ h) (by decide)
  simp only [Text.alignRight, String.toList_append, String.toList_ofList, List.mem_append, List.mem_replicate, not_or]
  exact ⟨⟨⟨by simp, hcount⟩, by decide⟩, (hts t ht).one_line⟩

section
variable {width : Nat} {ls : List (List Char)} (h : List.Forall₂ (IsRow width) ts ls)
include h

theorem map_readRow : ls.map (readRow width) = ts := by
  induction h with
  | nil => rfl
  | @cons t l ts ls hrow _ ih =>
    obtain ⟨ht, hts⟩ := List.forall_mem_cons.mp hts
    rw [List.map_cons, hrow.readRow_eq ht.nonneg, ih hts]

theorem countEnd_headD (hne : ts ≠ []) : countEnd (ls.headD []) = width := by
  cases h with
  | nil => exact absurd rfl hne
  | cons hrow _ => exact hrow.countEnd_eq (hts _ (List.mem_cons_self ..)).nonneg

end

theorem readTable_render : readTable (render ts) = ts := by
  rcases eq_or_ne ts [] with rfl | hne
  · rfl
  · have hrows := forall₂_isRow hts
    rw [← splitOn_render hts hne] at hrows
    have hrender : render ts ≠ "" := fun hempty => by
      rw [hempty] at hrows
      cases hrows with
      | cons hrow _ => exact absurd hrow.between (by simp)
    rw [readTable, if_neg hrender, countEnd_headD hts hrows hne, map_readRow hts hrows]

end

/-- **The table can be read back.** The counts of a table end at one column, which is as wide as the greatest of them,
and all names begin two characters after it. What stands in front of that column and behind gives back the tags, so
no other tags make the same table. -/
theorem render_columns (ts : List TagCount) (hts : ∀ t ∈ ts, Tabular t) :
    (ts = [] → render ts = "") ∧
      (ts ≠ [] → ∃ most, (ts.map (·.count)).max? = some most ∧
        List.Forall₂ (IsRow (toString most).length) ts ((render ts).toList.splitOn '\n')) ∧
      readTable (render ts) = ts ∧
      ∀ us : List TagCount, (∀ u ∈ us, Tabular u) → render us = render ts → us = ts := by
  refine ⟨fun hempty => by rw [hempty]; rfl, fun hne => ?_, readTable_render hts, fun us hus h => ?_⟩
  · exact ⟨greatest ts, max?_greatest hne, splitOn_render hts hne ▸ forall₂_isRow hts⟩
  · rw [← readTable_render hus, h, readTable_render hts]

/-- The greatest count is not the first one, and the names hold spaces and digits, or nothing at all. -/
theorem render_columns_crowded :
    let ts : List TagCount := [⟨"2  b", 7⟩, ⟨"", 1234⟩, ⟨" 30", 0⟩]
    let us : List TagCount := [⟨"2  b", 7⟩, ⟨"", 1234⟩, ⟨"30", 0⟩]
    (∀ t ∈ ts, Tabular t) ∧ (∀ u ∈ us, Tabular u) ∧ render ts = "   7  2  b\n1234  \n   0   30" ∧
      List.Forall₂ (IsRow 4) ts ((render ts).toList.splitOn '\n') ∧ readTable (render ts) = ts ∧
      render us ≠ render ts := by
  intro ts us
  have hfirst : ∀ t ∈ [⟨"2  b", 7⟩, ⟨"", 1234⟩], Tabular t := by
    simp only [List.forall_mem_cons]
    exact ⟨⟨by decide, by decide⟩, ⟨by decide, by decide⟩, List.forall_mem_nil _⟩
  have hts : ∀ t ∈ ts, Tabular t :=
    List.forall_mem_append.mpr ⟨hfirst, List.forall_mem_singleton.mpr ⟨by decide, by decide⟩⟩
  have hus : ∀ u ∈ us, Tabular u :=
    List.forall_mem_append.mpr ⟨hfirst, List.forall_mem_singleton.mpr ⟨by decide, by decide⟩⟩
  obtain ⟨-, hrows, hread, hinjective⟩ := render_columns ts hts
  obtain ⟨most, hmost, hrows⟩ := hrows (by decide)
  cases hmost
  exact ⟨hts, hus, by decide +kernel, hrows, hread, fun h => absurd (hinjective us hus h) (by decide)⟩

end XmlShape.TagCount
