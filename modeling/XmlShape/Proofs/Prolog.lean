import XmlShape.Proofs.Scanning
import XmlShape.Xml.Encoding

/-! # What an XML declaration depends on

A declaration is in ASCII and takes any white space for any other. So it says the same in a text and in the
bytes of that text, one character to a byte, and its line ends do not matter. All three have the same gist, and
the gist decides (`read_gist`). -/

namespace XmlShape.Xml

namespace Declaration

def isPlain (c : Char) : Bool :=
  c.toNat < 0x80 && !isSpace c

/-- Stands for all characters beyond ASCII. -/
def foreign : Char := Char.ofNat 0x80

def kind (c : Char) : Char :=
  if isSpace c then ' ' else if isPlain c then c else foreign

/-- The text with runs of white space, and runs of characters beyond ASCII, as one character each. -/
def gist : List Char → List Char
  | [] => []
  | c :: cs =>
    if !isPlain c && cs.head?.map kind == some (kind c) then gist cs else kind c :: gist cs

/-! ## Characters -/

theorem kind_of_isPlain {c : Char} (h : isPlain c = true) : kind c = c := by
  have hspace : isSpace c = false := by
    simp only [isPlain, Bool.and_eq_true, Bool.not_eq_true'] at h
    exact h.2
  simp [kind, hspace, h]

theorem isSpace_kind (c : Char) : isSpace (kind c) = isSpace c := by
  unfold kind
  split
  · rename_i h
    rw [h]
    decide
  · rename_i h
    split
    · rfl
    · rw [Bool.not_eq_true] at h
      rw [h]
      decide

theorem isPlain_kind (c : Char) : isPlain (kind c) = isPlain c := by
  unfold kind
  split
  · rename_i h
    simp [isPlain, h]
    decide
  · split
    · rfl
    · rename_i h
      rw [Bool.not_eq_true] at h
      rw [h]
      decide

/-- A plain character is of its own kind, and no other is of it. -/
theorem kind_eq_iff {c q : Char} (hq : isPlain q = true) : kind c = q ↔ c = q := by
  constructor
  · intro h
    have hc : isPlain c = true := by rw [← isPlain_kind, h, hq]
    rw [← h, kind_of_isPlain hc]
  · rintro rfl
    exact kind_of_isPlain hq

/-! ## The gist of a text -/

theorem head?_gist : ∀ cs : List Char, (gist cs).head? = cs.head?.map kind
  | [] => rfl
  | c :: cs => by
    rw [gist]
    split
    · rename_i h
      rw [Bool.and_eq_true, beq_iff_eq] at h
      rw [head?_gist cs, h.2]
      rfl
    · rfl

theorem gist_cons (c : Char) (cs : List Char) :
    gist (c :: cs) = if !isPlain c && (gist cs).head? == some (kind c) then gist cs else kind c :: gist cs := by
  rw [gist, head?_gist]

theorem gist_cons_congr {c d : Char} {cs ds : List Char} (hkind : kind c = kind d) (h : gist cs = gist ds) :
    gist (c :: cs) = gist (d :: ds) := by
  have hplain : isPlain c = isPlain d := by rw [← isPlain_kind, hkind, isPlain_kind]
  rw [gist_cons, gist_cons, hplain, hkind, h]

theorem gist_cons_cons {c d : Char} (hc : isPlain c = false) (hkind : kind d = kind c) (cs : List Char) :
    gist (c :: d :: cs) = gist (d :: cs) := by
  simp [gist, hc, hkind]

theorem gist_cons_of_isPlain {c : Char} (h : isPlain c = true) (cs : List Char) : gist (c :: cs) = c :: gist cs := by
  rw [gist, h, kind_of_isPlain h]
  rfl

theorem mem_gist {d : Char} : ∀ {cs : List Char}, d ∈ gist cs ↔ ∃ c ∈ cs, kind c = d
  | [] => by simp [gist]
  | c :: cs => by
    rw [gist]
    split
    · rename_i h
      rw [Bool.and_eq_true, beq_iff_eq] at h
      rw [mem_gist]
      constructor
      · rintro ⟨b, hb, rfl⟩
        exact ⟨b, List.mem_cons_of_mem c hb, rfl⟩
      · rintro ⟨b, hb, rfl⟩
        rcases List.mem_cons.mp hb with rfl | hb
        · obtain ⟨a, ha, hkind⟩ := Option.map_eq_some_iff.mp h.2
          exact ⟨a, List.mem_of_head? ha, hkind⟩
        · exact ⟨b, hb, rfl⟩
    · rw [List.mem_cons, mem_gist]
      constructor
      · rintro (rfl | ⟨b, hb, rfl⟩)
        · exact ⟨c, List.mem_cons_self .., rfl⟩
        · exact ⟨b, List.mem_cons_of_mem c hb, rfl⟩
      · rintro ⟨b, hb, rfl⟩
        rcases List.mem_cons.mp hb with rfl | hb
        · exact .inl rfl
        · exact .inr ⟨b, hb, rfl⟩

theorem gist_eq_self : ∀ {cs : List Char}, (∀ c ∈ cs, isPlain c = true) → gist cs = cs
  | [], _ => rfl
  | c :: cs, h => by
    obtain ⟨hc, hcs⟩ := List.forall_mem_cons.mp h
    rw [gist_cons_of_isPlain hc, gist_eq_self hcs]

/-- Where only plain characters will do, the gist will do if and only if the text itself does. -/
theorem gist_eq_of {p : List Char → Prop} (hplain : ∀ v, p v → ∀ c ∈ v, isPlain c = true) {v : List Char} :
    (p (gist v) ↔ p v) ∧ (p v → gist v = v) := by
  have hself : p v → gist v = v := fun h => gist_eq_self (hplain v h)
  refine ⟨⟨fun h => ?_, fun h => ?_⟩, hself⟩
  · have hv : gist v = v := gist_eq_self fun c hc => by
      rw [← isPlain_kind]
      exact hplain _ h _ (mem_gist.mpr ⟨c, hc, rfl⟩)
    rwa [hv] at h
  · rwa [hself h]

/-! ## Scanning the gist -/

theorem skipSpace_gist (cs : List Char) : skipSpace (gist cs) = gist (skipSpace cs) := by
  induction cs with
  | nil => rfl
  | cons c cs ih =>
    cases hc : isSpace c with
    | true =>
      have hskip : skipSpace (c :: cs) = skipSpace cs := List.dropWhile_cons_of_pos hc
      rw [hskip, ← ih, gist]
      split
      · rfl
      · exact List.dropWhile_cons_of_pos ((isSpace_kind c).trans hc)
    | false =>
      have hskip : skipSpace (c :: cs) = c :: cs := List.dropWhile_cons_of_neg (by simp [hc])
      rw [hskip]
      have hhead := head?_gist (c :: cs)
      cases hgist : gist (c :: cs) with
      | nil => rfl
      | cons d ds =>
        rw [hgist] at hhead
        have hd : d = kind c := Option.some.inj hhead
        exact List.dropWhile_cons_of_neg (by simp [hd, isSpace_kind, hc])

theorem afterSpace?_eq (cs : List Char) :
    afterSpace? cs = if cs.head?.any isSpace then some (skipSpace cs) else none := by
  cases cs with
  | nil => rfl
  | cons c cs =>
    cases hc : isSpace c with
    | true => simp [afterSpace?, hc, skipSpace]
    | false => simp [afterSpace?, hc]

theorem afterSpace?_gist (cs : List Char) : afterSpace? (gist cs) = (afterSpace? cs).map gist := by
  have hhead : (gist cs).head?.any isSpace = cs.head?.any isSpace := by
    rw [head?_gist]
    cases cs.head? with
    | none => rfl
    | some c => exact isSpace_kind c
  rw [afterSpace?_eq, afterSpace?_eq, hhead, skipSpace_gist]
  split <;> rfl

theorem isPrefixOf?_gist : ∀ {word : List Char} (_ : word.all isPlain = true) (cs : List Char),
    word.isPrefixOf? (gist cs) = (word.isPrefixOf? cs).map gist
  | [], _, cs => rfl
  | w :: ws, _, [] => rfl
  | w :: ws, hword, c :: cs => by
    rw [List.all_cons, Bool.and_eq_true] at hword
    obtain ⟨hw, hws⟩ := hword
    by_cases hc : c = w
    · subst hc
      rw [gist_cons_of_isPlain hw]
      simp [List.isPrefixOf?, isPrefixOf?_gist hws cs]
    · have hhead := head?_gist (c :: cs)
      cases hgist : gist (c :: cs) with
      | nil => simp [List.isPrefixOf?, Ne.symm hc]
      | cons d ds =>
        rw [hgist] at hhead
        have hd : d = kind c := Option.some.inj hhead
        have hne : w ≠ d := fun h => hc ((kind_eq_iff hw).mp (hd.symm.trans h.symm))
        simp [List.isPrefixOf?, hne, Ne.symm hc]

theorem after?_gist {word : String} (hword : word.toList.all isPlain = true) (cs : List Char) :
    after? word (gist cs) = (after? word cs).map gist :=
  isPrefixOf?_gist hword cs

theorem not_mem_gist {q : Char} (hq : isPlain q = true) {cs : List Char} : q ∉ gist cs ↔ q ∉ cs := by
  simp [mem_gist, kind_eq_iff hq]

theorem gist_append_cons {q : Char} (hq : isPlain q = true) (rest : List Char) : ∀ cs : List Char,
    gist (cs ++ q :: rest) = gist cs ++ q :: gist rest
  | [] => gist_cons_of_isPlain hq rest
  | [c] => by
    cases hc : isPlain c with
    | true =>
      rw [List.cons_append, gist_cons_of_isPlain hc, gist_cons_of_isPlain hc, List.nil_append, gist_cons_of_isPlain hq]
      rfl
    | false =>
      -- a plain character ends the run before it
      have hne : q ≠ kind c := by
        rintro rfl
        rw [isPlain_kind, hc] at hq
        cases hq
      simp [gist, hc, hq, kind_of_isPlain hq, hne]
  | c :: d :: cs => by
    have hstep : ∀ es, gist (c :: d :: es) =
        if !isPlain c && some (kind d) == some (kind c) then gist (d :: es) else kind c :: gist (d :: es) :=
      fun _ => rfl
    rw [List.cons_append, List.cons_append, hstep, hstep, ← List.cons_append, gist_append_cons hq rest (d :: cs)]
    split <;> rfl

theorem splitFrom?_append_cons {q : Char} (rest : List Char) : ∀ {cs : List Char} (before : List Char), q ∉ cs →
    splitFrom? [q] before (cs ++ q :: rest) = some (before.reverse ++ cs, rest)
  | [], before, _ => by simp [splitFrom?, List.isPrefixOf?]
  | c :: cs, before, h => by
    obtain ⟨hc, hcs⟩ := not_or.mp (mt List.mem_cons.mpr h)
    simp [splitFrom?, List.isPrefixOf?, hc, splitFrom?_append_cons rest (c :: before) hcs]

theorem splitFrom?_eq_none {q : Char} {stop : List Char} : ∀ {cs : List Char} (before : List Char), q ∉ cs →
    splitFrom? (q :: stop) before cs = none
  | [], before, _ => rfl
  | c :: cs, before, h => by
    obtain ⟨hc, hcs⟩ := not_or.mp (mt List.mem_cons.mpr h)
    simp [splitFrom?, List.isPrefixOf?, hc, splitFrom?_eq_none (c :: before) hcs]

theorem splitFrom?_gist {q : Char} (hq : isPlain q = true) (cs : List Char) :
    splitFrom? [q] [] (gist cs) = (splitFrom? [q] [] cs).map (Prod.map gist gist) := by
  by_cases h : q ∈ cs
  · -- the first `q` of the gist comes from the first `q` of the text, since only `q` is of its kind
    obtain ⟨before, rest, rfl, hbefore⟩ := List.eq_append_cons_of_mem h
    rw [gist_append_cons hq, splitFrom?_append_cons _ [] ((not_mem_gist hq).mpr hbefore),
      splitFrom?_append_cons _ [] hbefore]
    rfl
  · rw [splitFrom?_eq_none [] ((not_mem_gist hq).mpr h), splitFrom?_eq_none [] h]
    rfl

theorem literal?_eq_none {cs : List Char} (h : ∀ c ∈ cs.head?, c ≠ '"' ∧ c ≠ '\'') : literal? cs = none := by
  unfold literal?
  split
  · exact absurd rfl (h _ rfl).1
  · exact absurd rfl (h _ rfl).2
  · rfl

theorem literal?_gist (cs : List Char) : literal? (gist cs) = (literal? cs).map (Prod.map gist gist) := by
  by_cases h : ∀ c ∈ cs.head?, c ≠ '"' ∧ c ≠ '\''
  · have hgist : ∀ c ∈ (gist cs).head?, c ≠ '"' ∧ c ≠ '\'' := by
      rw [head?_gist]
      intro c hc
      obtain ⟨b, hb, rfl⟩ := Option.map_eq_some_iff.mp hc
      rw [ne_eq, ne_eq, kind_eq_iff (by decide), kind_eq_iff (by decide)]
      exact h b hb
    rw [literal?_eq_none h, literal?_eq_none hgist]
    rfl
  · rcases cs with _ | ⟨c, cs⟩
    · simp at h
    · obtain rfl | rfl : c = '"' ∨ c = '\'' := by
        simp only [List.head?_cons, Option.mem_some_iff, forall_eq'] at h
        tauto
      · rw [gist_cons_of_isPlain (by decide)]
        exact splitFrom?_gist (by decide) cs
      · rw [gist_cons_of_isPlain (by decide)]
        exact splitFrom?_gist (by decide) cs

/-- Two scanners in a row keep to the gist if each of them does. -/
theorem bind_gist {α α' β β' : Type} {f : α → α'} {g : β → β'} {found : Option α} {found' : Option α'}
    {next : α → Option β} {next' : α' → Option β'} (hfound : found' = found.map f)
    (hnext : ∀ a, next' (f a) = (next a).map g) : found'.bind next' = (found.bind next).map g := by
  rw [hfound]
  cases found with
  | none => rfl
  | some a => exact hnext a

theorem afterEquals?_gist (cs : List Char) : afterEquals? (gist cs) = (afterEquals? cs).map gist := by
  have hafter : after? "=" (skipSpace (gist cs)) = (after? "=" (skipSpace cs)).map gist := by
    rw [skipSpace_gist]
    exact after?_gist (by decide) (skipSpace cs)
  exact bind_gist hafter fun rest => congrArg some (skipSpace_gist rest)

/-! ## Reading the gist -/

theorem isPlain_of_isEncodingChar {c : Char} (h : c.isAlphanum = true ∨ c = '.' ∨ c = '_' ∨ c = '-') :
    isPlain c = true := by
  simp only [Char.isAlphanum, isAlpha_eq, Char.isDigit, isPlain, isSpace,
    UInt32.le_iff_toNat_le, ← Char.toNat_val, ← Char.toNat_inj, Char.reduceVal, UInt32.reduceToNat, Bool.or_eq_true,
    Bool.and_eq_true, decide_eq_true_eq, ge_iff_le, Bool.not_eq_true', Bool.or_eq_false_iff,
    beq_eq_false_iff_ne, ne_eq] at *
  omega

theorem isPlain_of_isVersion (v : List Char) (h : isVersion v = true) : ∀ c ∈ v, isPlain c = true := by
  unfold isVersion at h
  split at h
  · rw [Bool.and_eq_true, List.all_eq_true] at h
    intro c hc
    apply isPlain_of_isEncodingChar
    rw [Char.isAlphanum, Bool.or_eq_true]
    simp only [List.mem_cons] at hc
    rcases hc with rfl | rfl | hc
    · exact .inl (.inr h.1)
    · simp
    · exact .inl (.inr (h.2 c hc))
  · cases h

theorem isPlain_of_isEncodingName : ∀ v, isEncodingName v = true → ∀ c ∈ v, isPlain c = true
  | c :: cs, h => by
    simp only [isEncodingName, Bool.and_eq_true, List.all_eq_true] at h
    intro d hd
    apply isPlain_of_isEncodingChar
    rcases List.mem_cons.mp hd with rfl | hd
    · rw [Char.isAlphanum, h.1]
      simp
    · simpa [or_assoc] using h.2 d hd

def gistLeft {α : Type} : α × List Char → α × List Char :=
  Prod.map id gist

theorem field?_gist {name : String} (hname : name.toList.all isPlain = true) (cs : List Char) :
    field? name (gist cs) = (field? name cs).map (Prod.map gist gist) :=
  bind_gist (after?_gist hname cs) fun rest => bind_gist (afterEquals?_gist rest) literal?_gist

section
variable {α : Type} {p : List Char → Prop} [DecidablePred p]

/-- A value that has to be plain is found in the gist as it is found in the text. -/
theorem checked_gist (hplain : ∀ v, p v → ∀ c ∈ v, isPlain c = true) (f : List Char → α) (value rest : List Char) :
    (if p (gist value) then some (f (gist value), gist rest) else none) =
      (if p value then some (f value, rest) else none).map gistLeft := by
  obtain ⟨hiff, hself⟩ := gist_eq_of hplain (v := value)
  by_cases h : p value
  · rw [if_pos (hiff.mpr h), if_pos h, hself h]
    rfl
  · rw [if_neg (mt hiff.mp h), if_neg h]
    rfl

end

theorem version?_gist (cs : List Char) : version? (gist cs) = (version? cs).map gistLeft := by
  refine bind_gist (afterSpace?_gist cs) fun inner => ?_
  refine bind_gist (field?_gist (by decide) inner) fun ⟨value, rest⟩ => ?_
  exact checked_gist isPlain_of_isVersion String.ofList value rest

theorem encoding?_gist (cs : List Char) : encoding? (gist cs) = (encoding? cs).map gistLeft := by
  have hword : "encoding".toList.all isPlain = true := by decide
  unfold encoding?
  rw [afterSpace?_gist]
  cases afterSpace? cs with
  | none => rfl
  | some inner =>
    simp only [Option.map_some, after?_gist hword]
    cases after? "encoding" inner with
    | none => rfl
    | some _ =>
      refine bind_gist (field?_gist hword inner) fun ⟨value, rest⟩ => ?_
      exact checked_gist isPlain_of_isEncodingName (fun v => some (String.ofList v)) value rest

theorem standalone?_gist (cs : List Char) : standalone? (gist cs) = (standalone? cs).map gistLeft := by
  have hword : "standalone".toList.all isPlain = true := by decide
  have hself : ∀ {v word : List Char}, word.all isPlain = true → (gist v = word ↔ v = word) := by
    intro v word hplain
    exact (gist_eq_of (p := (· = word)) (fun _ h => h ▸ List.all_eq_true.mp hplain)).1
  unfold standalone?
  rw [afterSpace?_gist]
  cases afterSpace? cs with
  | none => rfl
  | some inner =>
    simp only [Option.map_some, after?_gist hword]
    cases after? "standalone" inner with
    | none => rfl
    | some _ =>
      refine bind_gist (field?_gist hword inner) fun ⟨value, rest⟩ => ?_
      simp only [Prod.map_apply, hself (by decide : ['y', 'e', 's'].all isPlain = true),
        hself (by decide : ['n', 'o'].all isPlain = true)]
      split
      · rfl
      · split <;> rfl

theorem fields?_gist (cs : List Char) : fields? (gist cs) = (fields? cs).map gistLeft := by
  refine bind_gist (version?_gist cs) fun ⟨version, afterVersion⟩ => ?_
  refine bind_gist (encoding?_gist afterVersion) fun ⟨encoding, afterEncoding⟩ => ?_
  refine bind_gist (standalone?_gist afterEncoding) fun ⟨standalone, afterStandalone⟩ => ?_
  have hafter : after? "?>" (skipSpace (gist afterStandalone)) = (after? "?>" (skipSpace afterStandalone)).map gist := by
    rw [skipSpace_gist]
    exact after?_gist (by decide) (skipSpace afterStandalone)
  exact bind_gist hafter fun _ => rfl

theorem opening?_gist (cs : List Char) : opening? (gist cs) = (opening? cs).map gist := by
  simp only [opening?, after?_gist (by decide : "<?xml".toList.all isPlain = true)]
  cases after? "<?xml" cs with
  | none => rfl
  | some rest =>
    have hhead := head?_gist rest
    cases rest with
    | nil => rfl
    | cons c rest =>
      cases hgist : gist (c :: rest) with
      | nil => simp [hgist] at hhead
      | cons d ds =>
        rw [hgist] at hhead
        obtain rfl : d = kind c := Option.some.inj hhead
        simp only [Option.map_some, hgist, isSpace_kind]
        split
        · rw [Option.map_some, hgist]
        · rfl

/-- **A declaration says what its gist says.** -/
theorem read_gist (cs : List Char) : read (gist cs) = (read cs).map gistLeft := by
  simp only [read, opening?_gist]
  cases opening? cs with
  | none => rfl
  | some inner =>
    simp only [Option.map_some, fields?_gist]
    cases fields? inner with
    | none => rfl
    | some found =>
      obtain ⟨d, rest⟩ := found
      simp only [Option.map_some, gistLeft, Prod.map_apply, id_eq]
      split <;> rfl

theorem read_eq_of_gist_eq {cs ds : List Char} (h : gist cs = gist ds) :
    (read cs).map Prod.fst = (read ds).map Prod.fst := by
  have hfst : ∀ es, (read (gist es)).map Prod.fst = (read es).map Prod.fst := by
    intro es
    rw [read_gist]
    cases read es <;> rfl
  rw [← hfst cs, ← hfst ds, h]

/-! ## Joining texts -/

theorem gist_append_congr {ds es : List Char} (h : gist ds = gist es) : ∀ cs, gist (cs ++ ds) = gist (cs ++ es)
  | [] => h
  | _ :: cs => gist_cons_congr rfl (gist_append_congr h cs)

theorem kind_of_le {c : Char} (h : 0x80 ≤ c.toNat) : isPlain c = false ∧ kind c = foreign := by
  have hspace : isSpace c = false := by
    simp only [isSpace, Bool.or_eq_false_iff, beq_eq_false_iff_ne, ne_eq, ← Char.toNat_inj]
    refine ⟨⟨⟨?_, ?_⟩, ?_⟩, ?_⟩ <;> (simp only [Char.reduceToNat]; omega)
  have hplain : isPlain c = false := by
    simp [isPlain, Nat.not_lt.mpr h]
  exact ⟨hplain, by simp [kind, hspace, hplain]⟩

/-- Any number of characters beyond ASCII count as one. -/
theorem gist_append_of_le {c : Char} (hc : 0x80 ≤ c.toNat) (rest : List Char) : ∀ {cs : List Char}, cs ≠ [] →
    (∀ d ∈ cs, 0x80 ≤ d.toNat) → gist (cs ++ rest) = gist (c :: rest)
  | [], h, _ => absurd rfl h
  | [d], _, h => gist_cons_congr ((kind_of_le (h d (by simp))).2.trans (kind_of_le hc).2.symm) rfl
  | d :: e :: cs, _, h => by
    obtain ⟨hd, hcs⟩ := List.forall_mem_cons.mp h
    have hkind : kind e = kind d := (kind_of_le (hcs e (by simp))).2.trans (kind_of_le hd).2.symm
    rw [List.cons_append, List.cons_append, gist_cons_cons (kind_of_le hd).1 hkind, ← List.cons_append]
    exact gist_append_of_le hc rest (by simp) hcs

end Declaration

end XmlShape.Xml
