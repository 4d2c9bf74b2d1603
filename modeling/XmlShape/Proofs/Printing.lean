import XmlShape.Proofs.Escaping
import XmlShape.Proofs.Prolog
import XmlShape.Xml.Token

/-! # Printed documents

A printed document is a list of lines, and each line is a tag with white space before it. The tags of the lines
are what is read from their text (`read_lines`). -/

namespace XmlShape.Xml

/-! ## Tags -/

def attributeChars (a : String × List Char) : List Char :=
  ' ' :: a.1.toList ++ '=' :: '"' :: a.2 ++ ['"']

/-- What stands between the quotes ends neither the value nor the tag. -/
def Enclosed (a : String × List Char) : Prop :=
  IsName a.1 ∧ '"' ∉ a.2 ∧ '<' ∉ a.2

theorem skipSpace_of_not_space {rest : List Char} (h : ∀ c ∈ rest.head?, isSpace c = false) :
    skipSpace rest = rest := by
  cases rest with
  | nil => rfl
  | cons c cs => simp [skipSpace, h c rfl]

/-- A name begins with no character that means something in a tag. -/
theorem isNameStart_ne {c : Char} (h : isNameStart c = true) :
    isSpace c = false ∧ c ≠ '>' ∧ c ≠ '/' ∧ c ≠ '!' ∧ c ≠ '?' := by
  have hne : ∀ d : Char, isNameStart d = false → c ≠ d := fun d hd hcd => by
    rw [hcd, hd] at h
    cases h
  refine ⟨?_, hne _ (by decide), hne _ (by decide), hne _ (by decide), hne _ (by decide)⟩
  simp [isSpace, hne ' ' (by decide), hne '\n' (by decide), hne '\t' (by decide), hne '\r' (by decide)]

section
variable {name : String} (hname : IsName name) (rest : List Char)
include hname

theorem name?_append (hrest : ∀ c ∈ rest.head?, isNameChar c = false) :
    name? (name.toList ++ rest) = some (name, rest) := by
  obtain ⟨c, cs, hchars, hc, hcs⟩ := hname
  have hspan : (cs ++ rest).span isNameChar = (cs, rest) := by
    rw [List.span_eq_takeWhile_dropWhile, List.takeWhile_append_of_pos hcs, List.dropWhile_append_of_pos hcs]
    cases rest with
    | nil => simp
    | cons d ds => simp [hrest d rfl]
  rw [hchars, List.cons_append, name?, if_pos hc, hspan]
  simp [← hchars]

theorem skipSpace_name : skipSpace (name.toList ++ rest) = name.toList ++ rest := by
  obtain ⟨c, cs, hchars, hc, -⟩ := hname
  refine skipSpace_of_not_space fun d hd => ?_
  rw [hchars] at hd
  obtain rfl : c = d := Option.some.inj hd
  exact (isNameStart_ne hc).1

end

section
variable {a : String × List Char} (h : Enclosed a) (rest : List Char)
include h

theorem attribute?_print : Token.attributes.attribute? (attributeChars a ++ rest) = some (a, rest) := by
  obtain ⟨hname, hquote, htag⟩ := h
  have hshape : attributeChars a ++ rest = ' ' :: (a.1.toList ++ '=' :: '"' :: (a.2 ++ '"' :: rest)) := by
    simp [attributeChars]
  have hspace : afterSpace? (' ' :: (a.1.toList ++ '=' :: '"' :: (a.2 ++ '"' :: rest))) =
      some (a.1.toList ++ '=' :: '"' :: (a.2 ++ '"' :: rest)) :=
    congrArg some (skipSpace_name hname _)
  have hfound := name?_append hname ('=' :: '"' :: (a.2 ++ '"' :: rest)) (by simp; decide)
  have hequals : afterEquals? ('=' :: '"' :: (a.2 ++ '"' :: rest)) = some ('"' :: (a.2 ++ '"' :: rest)) := rfl
  have hvalue : literal? ('"' :: (a.2 ++ '"' :: rest)) = some (a.2, rest) :=
    Declaration.splitFrom?_append_cons rest [] hquote
  rw [hshape, Token.attributes.attribute?, hspace]
  simp only [Option.bind_eq_bind, Option.bind_some, hfound, hequals, hvalue]
  simp [htag]

/-- After the space before an attribute there is neither end of a tag. -/
theorem skipSpace_attribute : ∃ c cs, skipSpace (attributeChars a ++ rest) = c :: cs ∧ c ≠ '>' ∧ c ≠ '/' := by
  obtain ⟨hname, -, -⟩ := h
  have hskip : skipSpace (attributeChars a ++ rest) = a.1.toList ++ ('=' :: '"' :: a.2 ++ ['"'] ++ rest) := by
    rw [← skipSpace_name hname]
    simp only [attributeChars, List.cons_append, List.append_assoc]
    rfl
  obtain ⟨c, cs, hchars, hc, -⟩ := hname
  obtain ⟨-, hgt, hslash, -⟩ := isNameStart_ne hc
  exact ⟨c, cs ++ ('=' :: '"' :: a.2 ++ ['"'] ++ rest), by rw [hskip, hchars]; rfl, hgt, hslash⟩

end

namespace Token

def tagEnd (isEmpty : Bool) : List Char :=
  if isEmpty then ['/', '>'] else ['>']

def print : Token → List Char
  | opening name attributes isEmpty => '<' :: (name.toList ++ (attributes.flatMap attributeChars ++ tagEnd isEmpty))
  | closing name => '<' :: '/' :: (name.toList ++ ['>'])
  | _ => []

def IsTag : Token → Prop
  | opening name attributes _ => IsName name ∧ ∀ a ∈ attributes, Enclosed a
  | closing name => IsName name
  | _ => False

theorem attributes_print (isEmpty : Bool) (rest : List Char) : ∀ (written done : List (String × List Char))
    {fuel : Nat}, (∀ a ∈ written, Enclosed a) → written.length < fuel →
    attributes done fuel (written.flatMap attributeChars ++ (tagEnd isEmpty ++ rest)) =
      .ok (done.reverse ++ written, isEmpty, rest)
  | written, _, 0, _, hfuel => absurd hfuel (Nat.not_lt_zero _)
  | [], done, fuel + 1, _, _ => by
    rw [List.append_nil]
    cases isEmpty <;> rfl
  | a :: written, done, fuel + 1, h, hfuel => by
    obtain ⟨ha, hwritten⟩ := List.forall_mem_cons.mp h
    have hrec := attributes_print isEmpty rest written (a :: done) hwritten (Nat.lt_of_succ_lt_succ hfuel)
    rw [List.flatMap_cons, List.append_assoc]
    obtain ⟨c, cs, hskip, hgt, hslash⟩ :=
      skipSpace_attribute ha (written.flatMap attributeChars ++ (tagEnd isEmpty ++ rest))
    unfold attributes
    rw [hskip, attribute?_print ha]
    split
    · rename_i heq
      exact absurd (List.cons.inj heq).1 hgt
    · rename_i heq
      exact absurd (List.cons.inj heq).1 hslash
    · simp only [hrec]
      simp

theorem length_le_attributeChars (written : List (String × List Char)) :
    written.length ≤ (written.flatMap attributeChars).length := by
  induction written with
  | nil => exact Nat.le_refl _
  | cons a written ih =>
    rw [List.flatMap_cons, List.length_append, List.length_cons]
    simp only [attributeChars, List.cons_append, List.length_cons]
    omega

/-- What follows the name in a tag is no part of it. -/
theorem isNameChar_afterName (written : List (String × List Char)) (isEmpty : Bool) (rest : List Char) :
    ∀ c ∈ (written.flatMap attributeChars ++ (tagEnd isEmpty ++ rest)).head?, isNameChar c = false := by
  intro c hc
  cases written with
  | nil =>
    cases isEmpty with
    | false =>
      obtain rfl : '>' = c := Option.some.inj hc
      decide
    | true =>
      obtain rfl : '/' = c := Option.some.inj hc
      decide
  | cons a written =>
    obtain rfl : ' ' = c := Option.some.inj hc
    decide

theorem next_name {c : Char} {cs rest : List Char} {name : String} (hc : isNameStart c = true)
    (h : name? (c :: cs) = some (name, rest)) (fuel : Nat) :
    next fuel ('<' :: c :: cs) = (attributes [] fuel rest).map fun r => (opening name r.1 r.2.1, r.2.2) := by
  obtain ⟨-, -, hslash, hmark, hquestion⟩ := isNameStart_ne hc
  unfold next
  -- comments, instructions, end tags and declarations begin with characters that no name begins with
  split
  · rename_i heq
    exact absurd (List.cons.inj (List.cons.inj heq).2).1 hmark
  · rename_i heq
    exact absurd (List.cons.inj (List.cons.inj heq).2).1 hquestion
  · rename_i heq
    exact absurd (List.cons.inj (List.cons.inj heq).2).1 hslash
  · rename_i heq
    exact absurd (List.cons.inj (List.cons.inj heq).2).1 hmark
  · rename_i heq
    obtain rfl := (List.cons.inj heq).2
    simp only [h]
    cases attributes [] fuel rest <;> rfl
  · rename_i hfirst
    exact absurd rfl (hfirst (c :: cs))

/-- **A tag is read from its characters.** -/
theorem next_print {t : Token} (h : t.IsTag) {fuel : Nat} (hfuel : t.print.length ≤ fuel) (rest : List Char) :
    next fuel (t.print ++ rest) = .ok (t, rest) := by
  cases t with
  | opening name written isEmpty =>
    obtain ⟨hname, hwritten⟩ := h
    have hlength : written.length < fuel := by
      have := length_le_attributeChars written
      simp only [print, List.length_cons, List.length_append] at hfuel
      omega
    have hshape : (opening name written isEmpty).print ++ rest =
        '<' :: (name.toList ++ (written.flatMap attributeChars ++ (tagEnd isEmpty ++ rest))) := by
      simp [print]
    have hfound := name?_append hname _ (isNameChar_afterName written isEmpty rest)
    obtain ⟨c, cs, hchars, hc, -⟩ := id hname
    rw [hchars, List.cons_append] at hfound
    rw [hshape, hchars, List.cons_append, next_name hc hfound,
      attributes_print isEmpty rest written [] hwritten hlength]
    rfl
  | closing name =>
    have hfound := name?_append h ('>' :: rest) (by simp; decide)
    have hshape : (closing name).print ++ rest = '<' :: '/' :: (name.toList ++ '>' :: rest) := by
      simp [print]
    have hclosing : closing? (name.toList ++ '>' :: rest) = some (closing name, rest) := by
      simp only [closing?, hfound, Option.bind_eq_bind, Option.bind_some]
      rfl
    rw [hshape]
    simp only [next, hclosing]
  | _ => exact h.elim

/-- Text goes on to the next tag. -/
theorem next_text {cs : List Char} (hne : cs ≠ []) (hcs : '<' ∉ cs) (rest : List Char)
    (hrest : ∀ c ∈ rest.head?, c = '<') (fuel : Nat) : next fuel (cs ++ rest) = .ok (text cs, rest) := by
  have hall : ∀ c ∈ cs, (c != '<') = true := fun c hc => bne_iff_ne.mpr fun h => hcs (h ▸ hc)
  have hspan : (cs ++ rest).span (· != '<') = (cs, rest) := by
    rw [List.span_eq_takeWhile_dropWhile, List.takeWhile_append_of_pos hall, List.dropWhile_append_of_pos hall]
    cases rest with
    | nil => simp
    | cons c rest => simp [hrest c rfl]
  obtain ⟨c, ds, rfl⟩ := List.exists_cons_of_ne_nil hne
  have hc : c ≠ '<' := bne_iff_ne.mp (hall c (List.mem_cons_self ..))
  unfold next
  split
  · rename_i heq
    exact absurd (List.cons.inj heq).1 hc
  · rename_i heq
    exact absurd (List.cons.inj heq).1 hc
  · rename_i heq
    exact absurd (List.cons.inj heq).1 hc
  · rename_i heq
    exact absurd (List.cons.inj heq).1 hc
  · rename_i heq
    exact absurd (List.cons.inj heq).1 hc
  · rw [hspan]

end Token

/-! ## Lines -/

def lineBreak (level : Nat) : List Char :=
  '\n' :: (indentation level).toList

abbrev Line := Nat × Token

def Line.chars (l : Line) : List Char :=
  lineBreak l.1 ++ l.2.print

def Line.tokens (l : Line) : List Token :=
  [.text (lineBreak l.1), l.2]

theorem lineBreak_blank (level : Nat) : ∀ c ∈ lineBreak level, c = '\n' ∨ c = ' ' := by
  intro c hc
  rcases List.mem_cons.mp hc with rfl | hc
  · exact .inl rfl
  · rw [indentation, String.toList_ofList] at hc
    exact .inr (List.eq_of_mem_replicate hc)

namespace Token

theorem readFrom_of_next {fuel : Nat} {done : List Token} {cs rest : List Char} {t : Token} (hne : cs ≠ [])
    (h : next (fuel + 1) cs = .ok (t, rest)) : readFrom (fuel + 1) done cs = readFrom fuel (t :: done) rest := by
  obtain ⟨c, ds, rfl⟩ := List.exists_cons_of_ne_nil hne
  rw [readFrom, h]
  · rfl
  · exact nofun

theorem head?_print {t : Token} (h : t.IsTag) (rest : List Char) : (t.print ++ rest).head? = some '<' := by
  cases t with
  | opening => rfl
  | closing => rfl
  | _ => exact h.elim

section
variable {t : Token} (ht : t.IsTag)
include ht

theorem length_print_pos : 0 < t.print.length := by
  cases t with
  | opening => exact Nat.succ_pos _
  | closing => exact Nat.succ_pos _
  | _ => exact ht.elim

/-- A line is read in two steps, its white space and its tag. -/
theorem readFrom_line {fuel : Nat} (hfuel : t.print.length ≤ fuel + 1) (level : Nat) (done : List Token)
    (rest : List Char) :
    readFrom (fuel + 2) done (lineBreak level ++ (t.print ++ rest)) =
      readFrom fuel (t :: text (lineBreak level) :: done) rest := by
  have hbreak : next (fuel + 2) (lineBreak level ++ (t.print ++ rest)) =
      .ok (text (lineBreak level), t.print ++ rest) := by
    refine next_text (List.cons_ne_nil _ _) (fun hmem => ?_) _ (fun c hc => ?_) _
    · rcases lineBreak_blank level _ hmem with h | h <;> cases h
    · rw [head?_print ht] at hc
      exact (Option.some.inj hc).symm
  have htag : next (fuel + 1) (t.print ++ rest) = .ok (t, rest) := next_print ht hfuel rest
  have hne : t.print ++ rest ≠ [] := fun h =>
    absurd (length_print_pos ht) (by simp [(List.append_eq_nil_iff.mp h).1])
  rw [readFrom_of_next (by simp [lineBreak]) hbreak, readFrom_of_next hne htag]

end

/-- The lines of a document are read one by one. -/
theorem readFrom_lines {ls : List Line} (h : ∀ l ∈ ls, l.2.IsTag) : ∀ {fuel : Nat} (done : List Token),
    (ls.flatMap Line.chars ++ ['\n']).length ≤ fuel →
    readFrom fuel done (ls.flatMap Line.chars ++ ['\n']) =
      .ok (done.reverse ++ (ls.flatMap Line.tokens ++ [.text ['\n']])) := by
  induction ls with
  | nil =>
    intro fuel done hfuel
    obtain ⟨fuel, rfl⟩ := Nat.exists_eq_add_of_le' hfuel
    have hclean : '<' ∉ ['\n'] := by decide
    have hnext : next (fuel + 1) ['\n'] = .ok (text ['\n'], []) :=
      next_text (List.cons_ne_nil _ _) hclean [] (by simp) _
    exact (readFrom_of_next (List.cons_ne_nil _ _) hnext).trans (by rw [readFrom, List.reverse_cons]; rfl)
  | cons l ls ih =>
    intro fuel done hfuel
    obtain ⟨level, t⟩ := l
    obtain ⟨ht, hls⟩ : t.IsTag ∧ ∀ l ∈ ls, l.2.IsTag := List.forall_mem_cons.mp h
    have hshape : ((level, t) :: ls).flatMap Line.chars ++ ['\n'] =
        lineBreak level ++ (t.print ++ (ls.flatMap Line.chars ++ ['\n'])) := by
      simp [Line.chars]
    -- each line is longer than the two steps that it takes
    have hpos := length_print_pos ht
    rw [hshape, List.length_append, List.length_append, lineBreak, List.length_cons] at hfuel
    obtain ⟨fuel, rfl⟩ := Nat.exists_eq_add_of_le' (show 2 ≤ fuel by omega)
    rw [hshape, readFrom_line ht (by omega), ih hls _ (by omega)]
    simp [Line.tokens]

theorem read_lines {ls : List Line} (h : ∀ l ∈ ls, l.2.IsTag) :
    read (ls.flatMap Line.chars ++ ['\n']) = .ok (ls.flatMap Line.tokens ++ [.text ['\n']]) :=
  readFrom_lines h [] (Nat.le_refl _)

end Token

/-! ## Documents -/

def written (attributes : List (String × String)) : List (String × List Char) :=
  attributes.map fun a => (a.1, a.2.toList.flatMap escapeChar)

mutual
def tagLines (level : Nat) : Element → List Line
  | ⟨name, attributes, children, _, namespaces⟩ =>
    if children.isEmpty then [(level, .opening name (written (namespaces ++ attributes)) true)]
    else
      (level, .opening name (written (namespaces ++ attributes)) false) ::
        (tagLinesAll (level + 1) children ++ [(level, .closing name)])

def tagLinesAll (level : Nat) : List Element → List Line
  | [] => []
  | e :: es => tagLines level e ++ tagLinesAll level es
end

def Line.text (l : Line) : String :=
  indentation l.1 ++ String.ofList l.2.print

theorem tagText_eq (name : String) (namespaces attributes : List (String × String)) :
    (tagText name namespaces attributes).toList =
      name.toList ++ (written (namespaces ++ attributes)).flatMap attributeChars := by
  have hattribute : ∀ a, (attributeText a).toList = attributeChars (a.1, a.2.toList.flatMap escapeChar) := by
    intro a
    simp [attributeText, attributeChars, escape, String.toList_append]
  simp [tagText, written, String.toList_append, String.toList_join, List.flatMap_map, hattribute]

theorem linesAll_eq {es : List Element} (level : Nat)
    (h : ∀ e ∈ es, ∀ level, lines level e = (tagLines level e).map Line.text) :
    linesAll level es = (tagLinesAll level es).map Line.text := by
  induction es with
  | nil => rw [linesAll, tagLinesAll, List.map_nil]
  | cons e es ih =>
    obtain ⟨he, hes⟩ := List.forall_mem_cons.mp h
    rw [linesAll, tagLinesAll, List.map_append, he, ih hes]

theorem lines_eq (e : Element) : ∀ level : Nat, lines level e = (tagLines level e).map Line.text := by
  induction e using Element.tree_induction with
  | step e ih =>
    intro level
    obtain ⟨name, attributes, children, text, namespaces⟩ := e
    have hopening : ∀ isEmpty, indentation level ++ "<" ++ tagText name namespaces attributes ++
          String.ofList (Token.tagEnd isEmpty) =
        Line.text (level, .opening name (written (namespaces ++ attributes)) isEmpty) := by
      intro isEmpty
      apply String.toList_injective
      simp [Line.text, Token.print, String.toList_append, tagText_eq]
    have hclosing : indentation level ++ "</" ++ name ++ ">" = Line.text (level, .closing name) := by
      apply String.toList_injective
      simp [Line.text, Token.print, String.toList_append]
    rw [lines, tagLines]
    split
    · exact congrArg ([·]) (hopening true)
    · rw [List.map_cons, List.map_append, linesAll_eq (level + 1) ih]
      exact congrArg₂ List.cons (hopening false) (congrArg (_ ++ [·]) hclosing)

/-- The characters after the declaration. -/
theorem toList_print {root : Element} {text : String} (h : print root = .ok text) :
    text.toList = declaration.toList ++ ((tagLines 0 root).flatMap Line.chars ++ ['\n']) := by
  unfold print at h
  split at h
  · cases h
    have hshift : ∀ ls : List Line, '\n' :: (ls.map Line.text).flatMap (fun l => l.toList ++ ['\n']) =
        ls.flatMap Line.chars ++ ['\n'] := by
      intro ls
      induction ls with
      | nil => rfl
      | cons l ls ih =>
        simp [Line.chars, Line.text, lineBreak, String.toList_append, ← ih]
    rw [← hshift, String.toList_join, lines_eq]
    simp [List.flatMap_map, String.toList_append]
  · cases h

end XmlShape.Xml
