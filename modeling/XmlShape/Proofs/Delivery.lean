import Mathlib.Algebra.Group.Nat.Defs
import XmlShape.Command.Run
import XmlShape.Proofs.Discovery
import XmlShape.Proofs.Reading
import XmlShape.Proofs.Units

/-! # What a run reads, shows and delivers

Reading stops at the first source that fails. What has been read can be shown in every view (`exists_render`), and
what is shown goes to one place (`delivered_deliver`). -/

namespace XmlShape

namespace Size

/-- The size of whatever can be stored can be shown. -/
theorem exists_render {size : Int} (h : size.toNat < 2 ^ 63) : ∃ s, render size = .ok s := by
  rcases lt_or_ge size 1024 with hbytes | hbytes
  · exact ⟨_, if_pos hbytes⟩
  · obtain ⟨n, rfl⟩ := Int.eq_ofNat_of_zero_le (show 0 ≤ size by omega)
    exact ⟨_, (render_eq (by omega)).trans (if_neg (not_limit_le h))⟩

end Size

namespace Command

/-! ## Reading -/

/-- Nothing that is there to read is longer than a sequence of bytes can be. -/
structure Storable (s : FileSystem) (input : ByteArray) : Prop where
  input : input.size < 2 ^ 63
  files : ∀ path data, s.read path = .ok data → data.size < 2 ^ 63

structure Document.Fit (d : Document) : Prop where
  root : d.root.Legible
  size : d.size < 2 ^ 63

theorem storable_empty {s : FileSystem} {input : ByteArray} (h : Storable s input) : Storable s ByteArray.empty :=
  ⟨by decide, h.files⟩

theorem storable_of_files {s : FileSystem} {input : ByteArray} (hinput : input.size < 2 ^ 63) (above : Path)
    (h : ∀ f ∈ s.top.files above, f.2.size < 2 ^ 63) : Storable s input := by
  refine ⟨hinput, fun path data hread => ?_⟩
  obtain ⟨place, hplace⟩ := FileSystem.exists_file_of_read hread
  obtain ⟨found, hfound⟩ := FileTree.exists_mem_files above hplace
  exact h _ hfound

section
variable {decoders : Xml.Decoders} {s : FileSystem}

theorem fit_of_readDocument {input : ByteArray} (h : Storable s input) {source : Option String} {d : Document}
    (hd : readDocument decoders (Files.ofSystem s) input source = .ok d) : d.Fit := by
  have hfit : ∀ data : ByteArray, data.size < 2 ^ 63 →
      ((Xml.readBytes decoders data).mapError SourceError.document >>= fun root =>
        (pure ⟨label source, data.size, root⟩ : Except SourceError Document)) = .ok d → d.Fit := by
    intro data hdata h
    obtain ⟨root, hroot, h⟩ := Outcome.bind_eq_ok.mp h
    cases h
    exact ⟨Xml.legible_readBytes (Outcome.mapError_eq_ok.mp hroot), hdata⟩
  unfold readDocument at hd
  simp only at hd
  split at hd
  · exact hfit input h.input hd
  · obtain ⟨data, hdata, hd⟩ := Outcome.bind_eq_ok.mp hd
    exact hfit data (h.files _ data (Outcome.mapError_eq_ok.mp hdata)) hd

theorem fit_of_mem_readDocuments : ∀ {sources : List (Option String)} {input : ByteArray},
    Storable s input → ∀ p ∈ readDocuments decoders (Files.ofSystem s) input sources, ∀ d, p.2 = .ok d → d.Fit
  | [], _, _ => by simp [readDocuments]
  | source :: sources, input, h => by
    have hrest : Storable s (if isStandardInput source then ByteArray.empty else input) := by
      split
      · exact storable_empty h
      · exact h
    rw [readDocuments]
    exact List.forall_mem_cons.mpr ⟨fun d hd => fit_of_readDocument h hd, fit_of_mem_readDocuments hrest⟩

end

def failure? : String × Except SourceError Document → Option (String × SourceError)
  | (label, .error e) => some (label, e)
  | (_, .ok _) => none

def errorLine (wording : Xml.SyntaxError → String) (label : String) (e : SourceError) : String :=
  "ERROR: " ++ label ++ ": " ++ e.message wording ++ "\n"

section
variable (wording : Xml.SyntaxError → String) (verbose : Bool) (total : Nat)

/-- Reading stops at the first source that fails, and its message is the last one. -/
theorem collect_of_failure {label : String} {e : SourceError} :
    ∀ (index : Nat) {reads : List (String × Except SourceError Document)}, reads.findSome? failure? = some (label, e) →
      ∃ progress, collect wording verbose total index reads = (progress ++ errorLine wording label e, none)
  | _, [], h => by cases h
  | index, (l, .error f) :: reads, h => by
    cases h
    exact ⟨"", by simp [collect, errorLine]⟩
  | index, (l, .ok d) :: reads, h => by
    have hrest : reads.findSome? failure? = some (label, e) := h
    obtain ⟨progress, hcollect⟩ := collect_of_failure (index + 1) hrest
    exact ⟨(if verbose then progressLine index total d else "") ++ progress, by
      simp [collect, hcollect, String.append_assoc]⟩

theorem collect_of_no_failure :
    ∀ (index : Nat) {reads : List (String × Except SourceError Document)}, reads.findSome? failure? = none →
      ∃ progress documents, collect wording verbose total index reads = (progress, some documents) ∧
        reads.map (·.2) = documents.map .ok
  | _, [], _ => ⟨"", [], rfl, rfl⟩
  | _, (l, .error f) :: reads, h => by cases h
  | index, (l, .ok d) :: reads, h => by
    have hrest : reads.findSome? failure? = none := h
    obtain ⟨progress, documents, hcollect, hreads⟩ := collect_of_no_failure (index + 1) hrest
    exact ⟨(if verbose then progressLine index total d else "") ++ progress, d :: documents, by
      simp only [collect, hcollect, Option.map_some], by simp [hreads]⟩

end

/-! ## Showing -/

/-- Every view of documents that were read can be shown. -/
theorem exists_render (st : Settings) {documents : List Document} (h : ∀ d ∈ documents, d.Fit) :
    ∃ text, render st documents = .ok text := by
  have hroots : ∀ r ∈ documents.map (·.root), r.Representable := by
    intro r hr
    obtain ⟨d, hd, rfl⟩ := List.mem_map.mp hr
    exact (h d hd).root.representable
  unfold render
  simp only
  split
  · exact ⟨_, rfl⟩
  · exact ⟨_, rfl⟩
  · -- the schema is one of the two views that can fail, and the statistics of each document are the other
    obtain ⟨text, htext⟩ := Schema.exists_render hroots
    exact ⟨text, Outcome.mapError_eq_ok.mpr htext⟩
  · exact ⟨_, rfl⟩
  · split
    · split <;> exact ⟨_, rfl⟩
    · have hstatistics : ∀ s ∈ documents.map fun d => Statistics.ofDocument d.root d.label d.size,
          ∃ text, s.render = .ok text := by
        intro s hs
        obtain ⟨d, hd, rfl⟩ := List.mem_map.mp hs
        obtain ⟨size, hsize⟩ := Size.exists_render (show (d.size : Int).toNat < 2 ^ 63 from (h d hd).size)
        simp only [Statistics.render, Statistics.ofDocument, hsize]
        exact ⟨_, rfl⟩
      obtain ⟨texts, htexts⟩ := Outcome.exists_mapM hstatistics
      rw [htexts]
      exact ⟨_, rfl⟩
  · exact ⟨_, rfl⟩

/-! ## Delivering -/

theorem getLast?_withLineEnd (text : String) : (withLineEnd text).toList.getLast? = some '\n' := by
  unfold withLineEnd
  split
  · assumption
  · simp

/-- The text is in the file to be written and nowhere else, or it is shown and no file has changed. -/
structure Delivered (st : Settings) (before after : FileSystem) (output text : String) : Prop where
  toFile : ∀ path, st.output = some path → path ≠ "" → output = "" ∧ FileSystem.Saved before after path text.toUTF8
  shown : st.output = none ∨ st.output = some "" → output = text ∧ after = before

def systemAfter (s : FileSystem) (report : Report) : FileSystem :=
  match report.saved with
  | none => s
  | some (path, text) =>
    match s.save path text.toUTF8 with
    | .ok after => after
    | .error _ => s

theorem runOn_eq (wording : Xml.SyntaxError → String) (decoders : Xml.Decoders) (s : FileSystem) (input : ByteArray)
    (args : List String) :
    runOn wording decoders s input args =
      (run wording decoders (Files.ofSystem s) input args,
        systemAfter s (run wording decoders (Files.ofSystem s) input args)) := by
  simp only [runOn, systemAfter]
  generalize run wording decoders (Files.ofSystem s) input args = report
  cases report.saved with
  | none => rfl
  | some saved =>
    obtain ⟨path, text⟩ := saved
    cases hsave : s.save path text.toUTF8 with
    | ok after => simp only [hsave]
    | error e => simp only [hsave]

def Report.Sound (r : Report) : Prop :=
  r.status ≠ .ok 0 → r.output = "" ∧ r.saved = none

theorem systemAfter_of_not_saved {s : FileSystem} {r : Report} (h : r.saved = none) : systemAfter s r = s := by
  rw [systemAfter, h]

theorem systemAfter_of_saved {s after : FileSystem} {r : Report} {path text : String}
    (h : r.saved = some (path, text)) (hsave : s.save path text.toUTF8 = .ok after) : systemAfter s r = after := by
  simp only [systemAfter, h, hsave]

theorem sound_deliver (files : Files) (st : Settings) (messages text : String) :
    (deliver files st messages text).Sound := by
  unfold deliver Report.Sound
  simp only
  split
  · intro h
    exact absurd rfl h
  · intro h
    exact absurd rfl h
  · split
    · intro _
      exact ⟨rfl, rfl⟩
    · intro h
      exact absurd rfl h

theorem delivered_deliver {s : FileSystem} {st : Settings} {messages text : String} {r : Report}
    (hr : deliver (Files.ofSystem s) st messages text = r) (h : ∀ e, r.status ≠ .error (.unwritable e)) :
    r.status = .ok 0 ∧ Delivered st s (systemAfter s r) r.output (withLineEnd text) := by
  unfold deliver at hr
  simp only at hr
  split at hr
  · rename_i hout
    subst hr
    exact ⟨rfl, ⟨fun path hpath => absurd (hout.symm.trans hpath) nofun, fun _ => ⟨rfl, rfl⟩⟩⟩
  · rename_i hout
    subst hr
    refine ⟨rfl, ⟨fun path hpath hne => ?_, fun _ => ⟨rfl, rfl⟩⟩⟩
    exact absurd (Option.some.inj (hpath.symm.trans hout)) hne
  · rename_i path hne hout
    split at hr
    · rename_i e hobstacle
      subst hr
      exact absurd rfl (h e)
    · rename_i hobstacle
      -- writing was tried with no content, and whether it works does not depend on the content
      have hwritable : ∃ u, s.save path ByteArray.empty = .ok u := by
        simp only [Files.ofSystem] at hobstacle
        split at hobstacle
        · exact ⟨_, ‹_›⟩
        · cases hobstacle
      obtain ⟨u, hu⟩ := hwritable
      obtain ⟨after, hafter⟩ := FileSystem.exists_save hu (withLineEnd text).toUTF8
      have hsystem : systemAfter s r = after := systemAfter_of_saved (hr ▸ rfl) hafter
      subst hr
      refine ⟨rfl, ⟨fun q hq _ => ?_, fun hnone => ?_⟩⟩
      · obtain rfl := Option.some.inj (hq.symm.trans hout)
        rw [hsystem]
        exact ⟨rfl, FileSystem.saved_of_save hafter⟩
      · rcases hnone with hnone | hnone
        · cases hnone.symm.trans hout
        · exact absurd (Option.some.inj (hnone.symm.trans hout)).symm hne

end Command

end XmlShape
