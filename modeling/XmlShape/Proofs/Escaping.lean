import XmlShape.Proofs.Outcomes
import XmlShape.Xml.Entity
import XmlShape.Xml.Printer

/-! # Escaped values

A value is written with references in place of the characters that mean something in a tag, or that a reader
would take for a space. Reading puts them back (`attributeValue_escape`). -/

namespace XmlShape.Xml

def symbolOf (c : Char) : Symbol :=
  if c = '&' then .entity "amp"
  else if c = '<' then .entity "lt"
  else if c = '>' then .entity "gt"
  else if c = '"' then .entity "quot"
  else if c = '\n' then .numbered '\n'
  else if c = '\r' then .numbered '\r'
  else if c = '\t' then .numbered '\t'
  else .raw c

/-- A character is written as a reference, which is read as a whole, or it stands for itself. -/
theorem escapeChar_cases (c : Char) :
    (∃ cs, escapeChar c = '&' :: cs ∧ ∀ rest, Symbol.reference? (cs ++ rest) = some (symbolOf c, rest)) ∨
      escapeChar c = [c] ∧ c ≠ '&' ∧ symbolOf c = .raw c := by
  unfold escapeChar symbolOf
  split_ifs with hamp hlt hgt hquot hfeed hreturn htab
  · exact .inl ⟨_, rfl, fun rest => rfl⟩
  · exact .inl ⟨_, rfl, fun rest => rfl⟩
  · exact .inl ⟨_, rfl, fun rest => rfl⟩
  · exact .inl ⟨_, rfl, fun rest => rfl⟩
  · exact .inl ⟨_, rfl, fun rest => rfl⟩
  · exact .inl ⟨_, rfl, fun rest => rfl⟩
  · exact .inl ⟨_, rfl, fun rest => rfl⟩
  · exact .inr ⟨rfl, hamp, rfl⟩

/-- What stands between the quotes ends neither the value nor the line, and no tag begins in it. -/
theorem escapeChar_clean {c d : Char} (h : d ∈ escapeChar c) :
    d ≠ '"' ∧ d ≠ '<' ∧ d ≠ '\r' ∧ (isChar c = true → isChar d = true) := by
  have hclosed : ∀ cs : List Char, (cs.all fun d => d != '"' && d != '<' && d != '\r' && isChar d) = true →
      ∀ d ∈ cs, d ≠ '"' ∧ d ≠ '<' ∧ d ≠ '\r' ∧ (isChar c = true → isChar d = true) := by
    intro cs hall d hd
    have hd := List.all_eq_true.mp hall d hd
    simp only [Bool.and_eq_true, bne_iff_ne] at hd
    exact ⟨hd.1.1.1, hd.1.1.2, hd.1.2, fun _ => hd.2⟩
  unfold escapeChar at h
  split_ifs at h with hamp hlt hgt hquot hfeed hreturn htab
  · exact hclosed _ (by decide) d h
  · exact hclosed _ (by decide) d h
  · exact hclosed _ (by decide) d h
  · exact hclosed _ (by decide) d h
  · exact hclosed _ (by decide) d h
  · exact hclosed _ (by decide) d h
  · exact hclosed _ (by decide) d h
  · rw [List.mem_singleton.mp h]
    exact ⟨hquot, hlt, hreturn, id⟩

namespace Symbol

theorem readFrom_escape : ∀ (cs : List Char) {fuel : Nat} (done : List Symbol),
    (cs.flatMap escapeChar).length ≤ fuel →
    readFrom fuel done (cs.flatMap escapeChar) = .ok (done.reverse ++ cs.map symbolOf)
  | [], fuel, done, _ => by simp [readFrom]
  | c :: cs, 0, done, h => by
    rcases escapeChar_cases c with ⟨ds, hc, -⟩ | ⟨hc, -, -⟩ <;> simp [hc] at h
  | c :: cs, fuel + 1, done, h => by
    rw [List.flatMap_cons] at h ⊢
    rcases escapeChar_cases c with ⟨ds, hc, hread⟩ | ⟨hc, hne, hsymbol⟩
    · rw [hc] at h ⊢
      have hfuel : (cs.flatMap escapeChar).length ≤ fuel := by
        simp only [List.cons_append, List.length_cons, List.length_append] at h
        omega
      simp [readFrom, hread, readFrom_escape cs _ hfuel]
    · rw [hc] at h ⊢
      have hfuel : (cs.flatMap escapeChar).length ≤ fuel := by
        simpa using h
      rw [List.singleton_append, readFrom, readFrom_escape cs _ hfuel]
      · simp [hsymbol]
      · exact hne

theorem read_escape (cs : List Char) : read (cs.flatMap escapeChar) = .ok (cs.map symbolOf) :=
  readFrom_escape cs [] (Nat.le_refl _)

end Symbol

theorem plain_eq_self {c : Char} (hfeed : c ≠ '\n') (hreturn : c ≠ '\r') (htab : c ≠ '\t') : Entities.plain c = c := by
  unfold Entities.plain
  split
  · rename_i h
    have hspace : c = ' ' := by simpa [isSpace, hfeed, hreturn, htab] using h
    exact hspace.symm
  · rfl

/-- The symbol of a character means it. A space is the only white space that stands for itself. -/
theorem symbolOf_cases (c : Char) :
    (∃ name, symbolOf c = .entity name ∧ Symbol.predefined? name = some c) ∨ symbolOf c = .numbered c ∨
      symbolOf c = .raw c ∧ Entities.plain c = c := by
  unfold symbolOf
  split_ifs with hamp hlt hgt hquot hfeed hreturn htab
  · exact .inl ⟨_, rfl, congrArg some hamp.symm⟩
  · exact .inl ⟨_, rfl, congrArg some hlt.symm⟩
  · exact .inl ⟨_, rfl, congrArg some hgt.symm⟩
  · exact .inl ⟨_, rfl, congrArg some hquot.symm⟩
  · exact .inr (.inl (congrArg _ hfeed.symm))
  · exact .inr (.inl (congrArg _ hreturn.symm))
  · exact .inr (.inl (congrArg _ htab.symm))
  · exact .inr (.inr ⟨rfl, plain_eq_self hfeed hreturn htab⟩)

/-- **A value that is written is read back.** -/
theorem Entities.attributeValue_escape (cs : List Char) : empty.attributeValue (cs.flatMap escapeChar) = .ok cs := by
  refine Outcome.bind_eq_ok.mpr ⟨_, Symbol.read_escape cs, Outcome.bind_eq_ok.mpr ⟨cs.map fun c => [c], ?_, ?_⟩⟩
  · rw [List.mapM_map]
    refine Outcome.mapM_eq_ok fun c _ => ?_
    rcases symbolOf_cases c with ⟨name, hc, hname⟩ | hc | ⟨hc, hplain⟩
    · simp only [Function.comp_apply, hc, hname]
      rfl
    · simp only [Function.comp_apply, hc]
      rfl
    · simp only [Function.comp_apply, hc, hplain]
      rfl
  · rw [← List.flatMap_def]
    exact congrArg Except.ok (List.flatMap_singleton' cs)

end XmlShape.Xml
