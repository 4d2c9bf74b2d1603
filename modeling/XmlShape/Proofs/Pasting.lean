import XmlShape.Dashboard
import XmlShape.Proofs.Decoding
import XmlShape.Proofs.Printable

/-! # Pasted documents

The page takes a pasted text by its bytes in UTF-8. It shows the document that the text is, unless something in
the text makes its bytes those of another text (`page_showsPasted`). -/

namespace XmlShape.Dashboard

variable {wording : Xml.SyntaxError → String} {decoders : Xml.Decoders} {input : Input}

def resultPage (input : Input) (roots : List Element) (schema : String) : List Event :=
  controls ++
    (statistics roots.length (TagCount.ofDocuments roots none) (Summary.ofDocuments roots) ++
      ⟨.main, .tabs (allTabs.map Tab.title)⟩ ::
        tabContents input (TagCount.ofDocuments roots none) (Summary.ofDocuments roots) schema)

/-! ## Pages -/

section
variable (hdocuments : documents input ≠ [])
include hdocuments

theorem page_of_readAll_error {e : Xml.ReadError} (h : readAll decoders (documents input) = .error e) :
    page wording decoders input = .ok (controls ++ [⟨.main, .error (problem wording e)⟩]) := by
  have hempty : (documents input).isEmpty = false := by simpa using hdocuments
  simp only [page, hempty, h, if_neg Bool.false_ne_true]

theorem page_of_readAll {roots : List Element} (h : readAll decoders (documents input) = .ok roots) :
    ∃ schema, Schema.render (Summary.ofDocuments roots) = .ok schema ∧
      page wording decoders input = .ok (resultPage input roots schema) := by
  have hempty : (documents input).isEmpty = false := by simpa using hdocuments
  have hrepresentable : ∀ r ∈ roots, r.Representable := fun r hr => by
    obtain ⟨data, -, hdata⟩ := Outcome.mem_of_mapM_eq_ok h r hr
    exact (Xml.legible_readBytes hdata).representable
  obtain ⟨schema, hschema⟩ := Schema.exists_render hrepresentable
  refine ⟨schema, hschema, ?_⟩
  simp only [page, hempty, h, if_neg Bool.false_ne_true, results, hschema]
  rfl

end

/-! ## Pasted text -/

/-- The page shows the pasted text as it stands, whatever encoding its declaration names. -/
structure ShowsPasted (wording : Xml.SyntaxError → String) (decoders : Xml.Decoders) (input : Input) : Prop where
  /-- The tabs show the views of the corpus that the document alone makes. -/
  document : ∀ root, Xml.readText input.pasted = .ok root →
    ∃ schema, Schema.render (Summary.ofDocuments [root]) = .ok schema ∧
      page wording decoders input = .ok (controls ++
        (statistics 1 (TagCount.ofDocuments [root] none) (Summary.ofDocuments [root]) ++
          ⟨.main, .tabs (allTabs.map Tab.title)⟩ ::
            tabContents input (TagCount.ofDocuments [root] none) (Summary.ofDocuments [root]) schema))
  /-- The error is shown, and there are no tabs. -/
  problem : ∀ e, Xml.readText input.pasted = .error e →
    ∃ cause, page wording decoders input = .ok (controls ++ [⟨.main, .error ("Could not parse input: " ++ wording cause)⟩])

theorem documents_of_pasted (huploads : input.uploads = []) (hblank : Text.isBlankText input.pasted = false) :
    documents input = [input.pasted.toUTF8] := by
  simp [documents, huploads, hblank]

section
variable (huploads : input.uploads = []) (hblank : Text.isBlankText input.pasted = false)
include huploads hblank

theorem page_of_read {root : Element} (hread : Xml.readBytes decoders input.pasted.toUTF8 = .ok root) :
    ∃ schema, Schema.render (Summary.ofDocuments [root]) = .ok schema ∧
      page wording decoders input = .ok (controls ++
        (statistics 1 (TagCount.ofDocuments [root] none) (Summary.ofDocuments [root]) ++
          ⟨.main, .tabs (allTabs.map Tab.title)⟩ ::
            tabContents input (TagCount.ofDocuments [root] none) (Summary.ofDocuments [root]) schema)) := by
  have hdocuments := documents_of_pasted huploads hblank
  have hall : readAll decoders (documents input) = .ok [root] := by
    rw [hdocuments, readAll, List.mapM_cons, hread]
    rfl
  exact page_of_readAll (by simp [hdocuments]) hall

theorem page_of_error {e : Xml.ReadError} (hread : Xml.readBytes decoders input.pasted.toUTF8 = .error e) :
    ∃ cause, page wording decoders input = .ok (controls ++ [⟨.main, .error ("Could not parse input: " ++ wording cause)⟩]) := by
  have hdocuments := documents_of_pasted huploads hblank
  have hall : readAll decoders (documents input) = .error e := by
    rw [hdocuments, readAll, List.mapM_cons, hread]
    rfl
  have hcause : ∃ cause, e = .malformed cause := by
    rw [Xml.readBytes, Xml.not_isBlankByte_toUTF8 hblank, if_neg Bool.false_ne_true] at hread
    unfold Xml.asReadError at hread
    split at hread
    · cases hread
    · rename_i cause _
      exact ⟨cause, (Except.error.inj hread).symm⟩
  obtain ⟨cause, rfl⟩ := hcause
  exact ⟨cause, page_of_readAll_error (by simp [hdocuments]) hall⟩

/-- **What is pasted is what is shown**, if its bytes in UTF-8 keep it. -/
theorem page_showsPasted (hkeeps : Xml.KeepsUtf8 decoders input.pasted.toList) : ShowsPasted wording decoders input := by
  have hsame := Xml.readBytes_toUTF8 hblank hkeeps
  cases hread : Xml.readBytes decoders input.pasted.toUTF8 with
  | ok root =>
    rw [hread] at hsame
    constructor
    · intro root' hroot
      rw [hroot] at hsame
      obtain rfl : root = root' := Option.some.inj hsame
      exact page_of_read huploads hblank hread
    · intro e he
      rw [he] at hsame
      cases hsame
  | error e =>
    rw [hread] at hsame
    constructor
    · intro root hroot
      rw [hroot] at hsame
      cases hsame
    · intro _ _
      exact page_of_error huploads hblank hread

end

def pastedAs (encoding : String) : Input where
  uploads := []
  pasted := "<?xml version=\"1.0\" encoding=\"" ++ encoding ++ "\"?><café/>"
  depth := 0
  attributes := true
  counts := true

theorem page_showsPasted_utf8 :
    Xml.KeepsUtf8 .none (pastedAs "utf-8").pasted.toList ∧ (Xml.readText (pastedAs "utf-8").pasted).toOption.isSome ∧
      ShowsPasted Xml.SyntaxError.message .none (pastedAs "utf-8") := by
  have hkeeps : Xml.KeepsUtf8 .none (pastedAs "utf-8").pasted.toList := by
    refine ⟨by decide, fun d rest name hread hname => ?_⟩
    have hdeclared : ((Xml.Declaration.read (pastedAs "utf-8").pasted.toList).map fun p => p.1.encoding) =
        .ok (some "utf-8") := by
      rfl
    rw [hread] at hdeclared
    obtain rfl : name = "utf-8" := Option.some.inj (hname.symm.trans (Except.ok.inj hdeclared))
    exact .inl ⟨.utf8, by decide +kernel, .inl rfl⟩
  exact ⟨hkeeps, by decide +kernel, page_showsPasted rfl (by decide +kernel) hkeeps⟩

/-- A declaration of another encoding is followed, though the text was decoded before. -/
theorem not_forall_showsPasted :
    ¬ ∀ (wording : Xml.SyntaxError → String) (decoders : Xml.Decoders) (input : Input), input.uploads = [] →
      Text.isBlankText input.pasted = false → ShowsPasted wording decoders input := by
  intro h
  have huploads : (pastedAs "ISO-8859-1").uploads = [] := rfl
  have hblank : Text.isBlankText (pastedAs "ISO-8859-1").pasted = false := by decide +kernel
  have htext : (Xml.readText (pastedAs "ISO-8859-1").pasted).toOption.isSome = true := by decide +kernel
  have hbytes : (Xml.readBytes .none (pastedAs "ISO-8859-1").pasted.toUTF8).toOption.isSome = false := by decide +kernel
  cases hroot : Xml.readText (pastedAs "ISO-8859-1").pasted with
  | error e =>
    rw [hroot] at htext
    cases htext
  | ok root =>
    cases hread : Xml.readBytes .none (pastedAs "ISO-8859-1").pasted.toUTF8 with
    | ok other =>
      rw [hread] at hbytes
      cases hbytes
    | error e =>
      obtain ⟨schema, -, hshown⟩ := (h Xml.SyntaxError.message .none _ huploads hblank).document root hroot
      obtain ⟨cause, herror⟩ := @page_of_error Xml.SyntaxError.message .none _ huploads hblank _ hread
      have hsame := List.append_cancel_left (Except.ok.inj (hshown.symm.trans herror))
      cases hsame

end XmlShape.Dashboard
