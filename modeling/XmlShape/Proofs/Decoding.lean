import XmlShape.Proofs.Prolog
import XmlShape.Proofs.Reading

/-! # Decoding the bytes of a text

A text in UTF-8 decodes to itself, unless its first characters or its declaration mislead. So a text and its bytes
are the same document, or neither is one (`readBytes_toUTF8`). -/

namespace XmlShape.Xml

/-! ## Bytes of characters -/

theorem toUTF8_toList (s : String) : s.toUTF8.data.toList = s.toList.flatMap String.utf8EncodeChar := by
  rw [String.toUTF8, ← String.utf8Encode_toList, List.utf8Encode, List.toList_data_toByteArray]

theorem toNat_byte_of_lt {c : Char} (h : c.toNat < 0x80) : (UInt8.ofNat c.toNat).toNat = c.toNat :=
  Nat.mod_eq_of_lt (by omega)

theorem utf8EncodeChar_of_lt {c : Char} (h : c.toNat < 0x80) :
    String.utf8EncodeChar c = [UInt8.ofNat c.toNat] := by
  unfold String.utf8EncodeChar
  exact if_pos (Nat.le_of_lt_succ h)

/-- The bytes of a character beyond ASCII are beyond ASCII, and none is one of those that begin a mark of UTF-16. -/
theorem utf8EncodeChar_of_le {c : Char} (h : 0x80 ≤ c.toNat) :
    ∀ b ∈ String.utf8EncodeChar c, 0x80 ≤ b.toNat ∧ b.toNat < 0xF8 := by
  rw [← Char.toNat_val] at h
  unfold String.utf8EncodeChar
  simp only [show ¬ c.val.toNat ≤ 127 by omega, if_false]
  split
  · simp
    omega
  · split
    · simp
      omega
    · simp
      omega

theorem toNat_ofNat_byte (b : UInt8) : (Char.ofNat b.toNat).toNat = b.toNat := by
  have hb := b.toNat_lt
  rw [Char.ofNat, dif_pos (.inl (by omega))]
  rfl

theorem latin1Chars_utf8EncodeChar_of_lt {c : Char} (h : c.toNat < 0x80) :
    Encoding.latin1Chars (String.utf8EncodeChar c) = [c] := by
  rw [utf8EncodeChar_of_lt h, Encoding.latin1Chars, List.map_singleton, toNat_byte_of_lt h, Char.ofNat_toNat]

namespace Declaration

theorem gist_joinLineEnds (done cs : List Char) : gist (joinLineEnds done cs) = gist (done.reverse ++ cs) := by
  fun_induction joinLineEnds done cs with
  | case1 done => simp
  | case2 done cs ih =>
    rw [ih, List.reverse_cons, List.append_assoc]
    exact gist_append_congr (gist_cons_cons (by decide) (by decide) cs).symm done.reverse
  | case3 done cs _ ih =>
    rw [ih, List.reverse_cons, List.append_assoc]
    exact gist_append_congr (gist_cons_congr (by decide) rfl) done.reverse
  | case4 done c cs _ _ ih =>
    rw [ih, List.reverse_cons, List.append_assoc]
    rfl

/-- One character to a byte gives another text, but one with the same gist. -/
theorem gist_latin1Chars : ∀ cs : List Char,
    gist (Encoding.latin1Chars (cs.flatMap String.utf8EncodeChar)) = gist cs
  | [] => rfl
  | c :: cs => by
    rw [List.flatMap_cons, Encoding.latin1Chars, List.map_append, ← Encoding.latin1Chars, ← Encoding.latin1Chars]
    by_cases hc : c.toNat < 0x80
    · rw [latin1Chars_utf8EncodeChar_of_lt hc]
      exact gist_cons_congr rfl (gist_latin1Chars cs)
    · have hc := Nat.le_of_not_lt hc
      have hne : Encoding.latin1Chars (String.utf8EncodeChar c) ≠ [] := by
        simp [Encoding.latin1Chars]
      rw [gist_append_of_le hc _ hne]
      · exact gist_cons_congr rfl (gist_latin1Chars cs)
      · intro d hd
        obtain ⟨b, hb, rfl⟩ := List.mem_map.mp hd
        rw [toNat_ofNat_byte]
        exact (utf8EncodeChar_of_le hc b hb).1

/-- The bytes of a text say about its declaration what the text itself says with its line ends joined. -/
theorem read_utf8 (cs : List Char) :
    (read (Encoding.latin1Chars (cs.flatMap String.utf8EncodeChar))).map Prod.fst = (read cs).map Prod.fst ∧
      (read (joinLineEnds [] cs)).map Prod.fst = (read cs).map Prod.fst :=
  ⟨read_eq_of_gist_eq (gist_latin1Chars cs), read_eq_of_gist_eq (gist_joinLineEnds [] cs)⟩

theorem isPrefixOf?_take (n : Nat) : ∀ word cs : List Char,
    word.isPrefixOf? (cs.take (word.length + n)) = (word.isPrefixOf? cs).map (List.take n)
  | [], cs => by simp [List.isPrefixOf?]
  | w :: ws, [] => by simp [List.isPrefixOf?]
  | w :: ws, c :: cs => by
    rw [List.length_cons, Nat.add_right_comm, List.take_succ_cons, List.isPrefixOf?, List.isPrefixOf?,
      isPrefixOf?_take n ws cs]
    split <;> rfl

theorem opening?_take (cs : List Char) : (opening? (cs.take 6)).isSome = (opening? cs).isSome := by
  have htake : after? "<?xml" (cs.take 6) = (after? "<?xml" cs).map (List.take 1) :=
    isPrefixOf?_take 1 "<?xml".toList cs
  rw [opening?, opening?, htake]
  cases after? "<?xml" cs with
  | none => rfl
  | some rest =>
    cases rest with
    | nil => rfl
    | cons c rest =>
      simp only [Option.map_some, List.take_succ_cons]
      split <;> rfl

end Declaration

namespace Encoding

theorem lt_of_mem_utf8 {cs : List Char} {b : UInt8} (hb : b ∈ cs.flatMap String.utf8EncodeChar) : b.toNat < 0xF8 := by
  obtain ⟨c, hc, hb⟩ := List.mem_flatMap.mp hb
  by_cases hascii : c.toNat < 0x80
  · rw [utf8EncodeChar_of_lt hascii, List.mem_singleton] at hb
    rw [hb, toNat_byte_of_lt hascii]
    omega
  · exact (utf8EncodeChar_of_le (Nat.le_of_not_lt hascii) b hb).2

/-- Only ASCII characters give bytes of ASCII. -/
theorem eq_cons_of_bytes {cs : List Char} {b : UInt8} {rest : List UInt8} (hb : b.toNat < 0x80)
    (h : cs.flatMap String.utf8EncodeChar = b :: rest) :
    ∃ ds, cs = Char.ofNat b.toNat :: ds ∧ ds.flatMap String.utf8EncodeChar = rest := by
  cases cs with
  | nil => cases h
  | cons c ds =>
    rw [List.flatMap_cons] at h
    by_cases hc : c.toNat < 0x80
    · rw [utf8EncodeChar_of_lt hc] at h
      obtain ⟨rfl, hrest⟩ := List.cons.inj h
      exact ⟨ds, by rw [toNat_byte_of_lt hc, Char.ofNat_toNat], hrest⟩
    · obtain ⟨a, bytes, hbytes⟩ := List.exists_cons_of_ne_nil (String.utf8EncodeChar_ne_nil (c := c))
      have hbounds := utf8EncodeChar_of_le (Nat.le_of_not_lt hc) a (by simp [hbytes])
      rw [hbytes] at h
      obtain ⟨rfl, -⟩ := List.cons.inj h
      omega

theorem isPrefix_of_bytes : ∀ {word : List UInt8} {cs : List Char} {rest : List UInt8},
    word.all (fun b => b.toNat < 0x80) = true → cs.flatMap String.utf8EncodeChar = word ++ rest → latin1Chars word <+: cs
  | [], _, _, _, _ => List.nil_prefix
  | b :: word, cs, rest, hword, h => by
    rw [List.all_cons, Bool.and_eq_true, decide_eq_true_eq] at hword
    obtain ⟨ds, rfl, hds⟩ := eq_cons_of_bytes hword.1 h
    exact (List.prefix_cons_inj _).mpr (isPrefix_of_bytes hword.2 hds)

theorem eq_mark_of_bytes {cs : List Char} {rest : List UInt8}
    (h : cs.flatMap String.utf8EncodeChar = 0xEF :: 0xBB :: 0xBF :: rest) : cs.head? = some '\uFEFF' := by
  cases cs with
  | nil => cases h
  | cons c cs =>
    have hc : c.toNat = 0xFEFF := by
      have hval : c.val.toNat = c.toNat := rfl
      rw [List.flatMap_cons, String.utf8EncodeChar, hval] at h
      repeat' split at h
      -- of the four lengths only three bytes can begin so
      all_goals
        simp [← UInt8.toNat_inj] at h
        omega
    rw [List.head?_cons]
    exact congrArg some (Char.toNat_inj.mp hc)

theorem detect?_utf8 {cs : List Char} (hmark : cs.head? ≠ some '\uFEFF')
    (hlittle : ¬ ['<', '\x00', '?', '\x00'] <+: cs) (hbig : ¬ ['\x00', '<', '\x00', '?'] <+: cs) :
    detect? ((cs.flatMap String.utf8EncodeChar).take 4) = none := by
  have hbound : ∀ b ∈ (cs.flatMap String.utf8EncodeChar).take 4, b.toNat < 0xF8 :=
    fun b hb => lt_of_mem_utf8 (List.mem_of_mem_take hb)
  have hbytes := (List.take_append_drop 4 (cs.flatMap String.utf8EncodeChar)).symm
  unfold detect?
  rw [List.take_take, Nat.min_self]
  split
  · rename_i h
    rw [h] at hbytes
    exact absurd (eq_mark_of_bytes hbytes) hmark
  · rename_i h
    exact absurd (hbound 0xFE (by simp [h])) (by decide)
  · rename_i h
    exact absurd (hbound 0xFF (by simp [h])) (by decide)
  · rename_i h
    rw [h] at hbytes
    exact absurd (isPrefix_of_bytes (by decide) hbytes) hlittle
  · rename_i h
    rw [h] at hbytes
    exact absurd (isPrefix_of_bytes (by decide) hbytes) hbig
  · rfl

/-! ## Decoding -/

theorem decode?_utf8 (decoders : Decoders) (s : String) : utf8.decode? decoders s.toUTF8 = some s.toList := by
  have hback : String.fromUTF8? s.toUTF8 = some s := dif_pos s.isValidUTF8
  rw [decode?, hback]
  rfl

theorem latin1Chars_of_ascii : ∀ {cs : List Char}, (∀ c ∈ cs, c.toNat < 0x80) →
    latin1Chars (cs.flatMap String.utf8EncodeChar) = cs
  | [], _ => rfl
  | c :: cs, h => by
    obtain ⟨hc, hcs⟩ := List.forall_mem_cons.mp h
    rw [List.flatMap_cons, latin1Chars, List.map_append, ← latin1Chars, ← latin1Chars,
      latin1Chars_utf8EncodeChar_of_lt hc, latin1Chars_of_ascii hcs]
    rfl

theorem asciiChars?_of_ascii {cs : List Char} (h : ∀ c ∈ cs, c.toNat < 0x80) :
    asciiChars? (cs.flatMap String.utf8EncodeChar) = some cs := by
  have hbytes : (cs.flatMap String.utf8EncodeChar).all (· < 0x80) = true := by
    rw [List.all_eq_true]
    intro b hb
    obtain ⟨c, hc, hb⟩ := List.mem_flatMap.mp hb
    rw [utf8EncodeChar_of_lt (h c hc), List.mem_singleton] at hb
    rw [hb, decide_eq_true_eq, UInt8.lt_iff_toNat_lt, toNat_byte_of_lt (h c hc)]
    exact h c hc
  rw [asciiChars?, if_pos hbytes, latin1Chars_of_ascii h]

/-- An encoding that a document can name reads the UTF-8 of an ASCII text as that text. -/
theorem decode?_of_ascii (decoders : Decoders) {name : String} {e : Encoding} (hname : ofName? name = some e)
    {s : String} (hs : ∀ c ∈ s.toList, c.toNat < 0x80) : e.decode? decoders s.toUTF8 = some s.toList := by
  -- the names are those of UTF-8, of Latin-1 and of ASCII
  simp only [ofName?] at hname
  split at hname
  · cases hname
    exact decode?_utf8 decoders s
  · split at hname
    · cases hname
      rw [decode?, toUTF8_toList, latin1Chars_of_ascii hs]
    · split at hname
      · cases hname
        rw [decode?, toUTF8_toList, asciiChars?_of_ascii hs]
      · cases hname

def named (decoders : Decoders) (d : Declaration) : Except SyntaxError Encoding :=
  match d.encoding with
  | none => pure utf8
  | some name =>
    match ofName? name with
    | some encoding => pure encoding
    | none => if (decoders name).isSome then pure (further name) else throw (.unknownEncoding name)

theorem declared_eq (decoders : Decoders) (bytes : ByteArray) :
    declared decoders bytes =
      (Declaration.read (latin1Chars bytes.data.toList)).map Prod.fst >>= named decoders := by
  have htake := Declaration.opening?_take (latin1Chars bytes.data.toList)
  rw [latin1Chars, ← List.map_take, ← latin1Chars, ← latin1Chars] at htake
  unfold declared
  cases hopening : Declaration.opening? (latin1Chars (bytes.data.toList.take 6)) with
  | none =>
    rw [hopening, Option.isSome_none] at htake
    have hnone := Option.isSome_eq_false_iff.mp htake.symm
    rw [Option.isNone_iff_eq_none] at hnone
    simp only [Declaration.read, hnone]
    rfl
  | some inner =>
    cases Declaration.read (latin1Chars bytes.data.toList) <;> rfl

theorem decode_of_mark (decoders : Decoders) {s : String} {cs : List Char} (h : s.toList = '\uFEFF' :: cs) :
    decode decoders s.toUTF8 = .ok cs := by
  have hbytes : s.toUTF8.data.toList = 0xEF :: 0xBB :: 0xBF :: cs.flatMap String.utf8EncodeChar := by
    rw [toUTF8_toList, h]
    rfl
  have hsize : s.toUTF8.size = (cs.flatMap String.utf8EncodeChar).length + 3 := by
    rw [ByteArray.size, ← Array.length_toList, hbytes]
    rfl
  have hrest : s.toUTF8.extract 3 s.toUTF8.size = (String.ofList cs).toUTF8 := by
    apply ByteArray.ext
    rw [← Array.toList_inj, toUTF8_toList, String.toList_ofList, ByteArray.data_extract, Array.toList_extract, hbytes,
      List.extract_eq_take_drop, hsize]
    exact List.take_length
  have hdetect : detect? (s.toUTF8.data.toList.take 4) = some (utf8, 3) := by
    rw [hbytes]
    cases cs.flatMap String.utf8EncodeChar <;> rfl
  simp only [decode, hdetect, pure_bind, hrest, decode?_utf8]
  exact congrArg pure String.toList_ofList

theorem decode_toUTF8 (decoders : Decoders) {s : String} (hmark : s.toList.head? ≠ some '\uFEFF')
    (hlittle : ¬ ['<', '\x00', '?', '\x00'] <+: s.toList) (hbig : ¬ ['\x00', '<', '\x00', '?'] <+: s.toList) :
    decode decoders s.toUTF8 = ((Declaration.read s.toList).map Prod.fst >>= named decoders) >>= fun e =>
      match e.decode? decoders s.toUTF8 with
      | some cs => pure cs
      | none => throw .undecodable := by
  have hdetect := detect?_utf8 hmark hlittle hbig
  rw [← toUTF8_toList] at hdetect
  rw [decode, hdetect, declared_eq, toUTF8_toList, (Declaration.read_utf8 s.toList).1]
  cases (Declaration.read s.toList).map Prod.fst >>= named decoders with
  | error e => rfl
  | ok e =>
    have hwhole : s.toUTF8.extract 0 s.toUTF8.size = s.toUTF8 := ByteArray.extract_zero_size
    exact congrArg (fun bytes => (match e.decode? decoders bytes with
      | some cs => pure cs
      | none => throw .undecodable : Except SyntaxError (List Char))) hwhole

end Encoding

/-- Nothing in a text makes a reader of its bytes in UTF-8 take them for those of another text. -/
structure KeepsUtf8 (decoders : Decoders) (cs : List Char) : Prop where
  /-- The text does not begin as the bytes of a declaration in UTF-16 do. -/
  narrow : ¬ ['<', '\x00', '?', '\x00'] <+: cs ∧ ¬ ['\x00', '<', '\x00', '?'] <+: cs
  /-- If its declaration names an encoding, it is UTF-8, or one in which ASCII is the same and the text is in
  ASCII, or a further one whose reader gives the text back. -/
  declared : ∀ d rest name, Declaration.read cs = .ok (d, rest) → d.encoding = some name →
    (∃ e, Encoding.ofName? name = some e ∧ (e = .utf8 ∨ ∀ c ∈ cs, c.toNat < 0x80)) ∨
      Encoding.ofName? name = none ∧
        ∃ decoder, decoders name = some decoder ∧ decoder (String.ofList cs).toUTF8 = some cs

/-- Where a declaration cannot be read there is no root. -/
theorem readRoot_of_read_error {cs : List Char} {e : SyntaxError} (h : Declaration.read cs = .error e) :
    ∃ e', readRoot cs = .error e' := by
  have hjoined := (Declaration.read_utf8 cs).2
  rw [h] at hjoined
  cases hcs : Declaration.read (joinLineEnds [] cs) with
  | ok found =>
    rw [hcs] at hjoined
    cases hjoined
  | error e' =>
    by_cases hchars : cs.all isChar = true
    · exact ⟨e', by simp [readRoot, readTree, normalize, hchars, hcs, Bind.bind, Except.bind]⟩
    · exact ⟨.forbiddenCharacter, by simp [readRoot, readTree, normalize, hchars, Bind.bind, Except.bind]⟩

theorem isBlank_of_bytes {c : Char} (h : ∀ b ∈ String.utf8EncodeChar c, Text.isBlankByte b = true) :
    Text.isBlank c = true := by
  by_cases hc : c.toNat < 0x80
  · have hblank := h (UInt8.ofNat c.toNat) (by simp [utf8EncodeChar_of_lt hc])
    simp only [Text.isBlankByte, Bool.or_eq_true, Bool.and_eq_true, decide_eq_true_eq, beq_iff_eq, UInt8.le_iff_toNat_le,
      ← UInt8.toNat_inj, toNat_byte_of_lt hc, UInt8.reduceToNat] at hblank
    simp only [Text.isBlank, Bool.or_eq_true, Bool.and_eq_true, decide_eq_true_eq, beq_iff_eq]
    omega
  · obtain ⟨b, hb⟩ := List.exists_mem_of_ne_nil _ (String.utf8EncodeChar_ne_nil (c := c))
    have hbounds := utf8EncodeChar_of_le (Nat.le_of_not_lt hc) b hb
    have hblank := h b hb
    simp only [Text.isBlankByte, Bool.or_eq_true, Bool.and_eq_true, decide_eq_true_eq, beq_iff_eq, UInt8.le_iff_toNat_le,
      ← UInt8.toNat_inj, UInt8.reduceToNat] at hblank
    omega

theorem not_isBlankByte_toUTF8 {s : String} (h : Text.isBlankText s = false) :
    s.toUTF8.data.toList.all Text.isBlankByte = false := by
  rw [toUTF8_toList, Bool.eq_false_iff]
  intro hall
  rw [List.all_eq_true] at hall
  rw [Text.isBlankText, List.all_eq_false] at h
  obtain ⟨c, hc, hblank⟩ := h
  exact hblank (isBlank_of_bytes fun b hb => hall b (List.mem_flatMap.mpr ⟨c, hc, hb⟩))

theorem KeepsUtf8.decode_toUTF8 {decoders : Decoders} {s : String} (hkeeps : KeepsUtf8 decoders s.toList)
    (hmark : s.toList.head? ≠ some '\uFEFF') {d : Declaration} {rest : List Char}
    (hread : Declaration.read s.toList = .ok (d, rest)) : Encoding.decode decoders s.toUTF8 = .ok s.toList := by
  have hencoding : ∃ e, Encoding.named decoders d = .ok e ∧ e.decode? decoders s.toUTF8 = some s.toList := by
    unfold Encoding.named
    cases hname : d.encoding with
    | none => exact ⟨.utf8, rfl, Encoding.decode?_utf8 decoders s⟩
    | some name =>
      rcases hkeeps.declared d rest name hread hname with ⟨e, he, hkept⟩ | ⟨hnone, decoder, hdecoder, hkept⟩
      · refine ⟨e, by simp only [he]; rfl, ?_⟩
        rcases hkept with rfl | hascii
        · exact Encoding.decode?_utf8 decoders s
        · exact Encoding.decode?_of_ascii decoders he hascii
      · rw [String.ofList_toList] at hkept
        refine ⟨.further name, ?_, ?_⟩
        · simp only [hnone, hdecoder, Option.isSome_some, if_true]
          rfl
        · rw [Encoding.decode?, hdecoder, Option.bind_some, hkept]
  obtain ⟨e, hnamed, hdecode⟩ := hencoding
  rw [Encoding.decode_toUTF8 decoders hmark hkeeps.narrow.1 hkeeps.narrow.2, hread]
  simp only [Except.map, Bind.bind, Except.bind, hnamed, hdecode]
  rfl

/-- **A text and its bytes in UTF-8 are the same document**, or neither is one. -/
theorem readBytes_toUTF8 {decoders : Decoders} {s : String} (hblank : Text.isBlankText s = false)
    (hkeeps : KeepsUtf8 decoders s.toList) : (readBytes decoders s.toUTF8).toOption = (readText s).toOption := by
  unfold readBytes readText
  rw [not_isBlankByte_toUTF8 hblank, hblank]
  by_cases hmark : s.toList.head? = some '\uFEFF'
  · -- the mark settles the encoding, and no declaration can come first
    obtain ⟨cs, hcs⟩ := List.head?_eq_some_iff.mp hmark
    rw [Encoding.decode_of_mark decoders hcs, hcs]
    rfl
  · have hself : withoutMark s.toList = s.toList := by
      unfold withoutMark
      split
      · rename_i hs
        rw [hs] at hmark
        exact absurd rfl hmark
      · rfl
    rw [hself]
    cases hread : Declaration.read s.toList with
    | ok found =>
      rw [hkeeps.decode_toUTF8 hmark hread]
      rfl
    | error e =>
      obtain ⟨e', hroot⟩ := readRoot_of_read_error hread
      rw [Encoding.decode_toUTF8 decoders hmark hkeeps.narrow.1 hkeeps.narrow.2, hread, hroot]
      rfl

end XmlShape.Xml
