import XmlShape.Proofs.CommandLines
import XmlShape.Proofs.Delivery

/-! # Runs of the command line

A run either fails and leaves nothing but messages, or its view is complete and goes to one place
(`runOn_all_or_nothing`). A directory that cannot be looked into ends a run in a way of its own
(`not_forall_all_or_nothing`). -/

namespace XmlShape.Command

/-- The directory to look into is none, or there is nothing at all to read. -/
def Misdirected (s : FileSystem) (st : Settings) : Prop :=
  ∃ directory, st.directory? = some directory ∧
    (¬s.HasDirectory directory ∨ s.discover directory = .ok [] ∧ st.files = [])

/-- Looking into the directory fails, though there may be one. -/
def Barred (s : FileSystem) (st : Settings) (e : FileError) : Prop :=
  ∃ directory, st.directory? = some directory ∧ s.discover directory = .error (.failed e)

def found (s : FileSystem) (st : Settings) : List String :=
  match st.directory? with
  | none => []
  | some directory =>
    match s.discover directory with
    | .ok paths => paths
    | .error _ => []

def reads (decoders : Xml.Decoders) (s : FileSystem) (input : ByteArray) (st : Settings) :
    List (String × Except SourceError Document) :=
  readDocuments decoders (Files.ofSystem s) input (sources st (found s st))

def firstFailure? (decoders : Xml.Decoders) (s : FileSystem) (input : ByteArray) (st : Settings) :
    Option (String × SourceError) :=
  (reads decoders s input st).findSome? failure?

section
variable (wording : Xml.SyntaxError → String) {decoders : Xml.Decoders} {s : FileSystem} {input : ByteArray}
  {st : Settings}

theorem showView_of_failure (st : Settings) (messages : String) {files : Files} {label : String} {e : SourceError}
    {sources : List (Option String)}
    (h : (readDocuments decoders files input sources).findSome? failure? = some (label, e)) :
    ∃ progress,
      showView wording decoders files input st messages sources = failed (progress ++ errorLine wording label e) := by
  obtain ⟨progress, hcollect⟩ := collect_of_failure wording st.verbose sources.length 1 h
  simp only [showView, hcollect]
  exact ⟨_, congrArg failed String.append_assoc.symm⟩

theorem showView_of_no_failure (st : Settings) (messages : String) {sources : List (Option String)}
    (hinput : Storable s input)
    (h : (readDocuments decoders (Files.ofSystem s) input sources).findSome? failure? = none) :
    ∃ documents text, (readDocuments decoders (Files.ofSystem s) input sources).map (·.2) = documents.map .ok ∧
      render st documents = .ok text ∧ ∃ progress,
        showView wording decoders (Files.ofSystem s) input st messages sources =
          deliver (Files.ofSystem s) st progress text := by
  obtain ⟨progress, documents, hcollect, hreads⟩ := collect_of_no_failure wording st.verbose sources.length 1 h
  have hfit : ∀ d ∈ documents, d.Fit := by
    intro d hd
    have hok : (.ok d : Except SourceError Document) ∈
        (readDocuments decoders (Files.ofSystem s) input sources).map (·.2) :=
      hreads ▸ List.mem_map_of_mem hd
    obtain ⟨p, hp, heq⟩ := List.mem_map.mp hok
    exact fit_of_mem_readDocuments hinput p hp d heq
  obtain ⟨text, htext⟩ := exists_render st hfit
  refine ⟨documents, text, hreads, htext, ?_⟩
  simp only [showView, hcollect, htext]
  exact ⟨_, rfl⟩

theorem sources_eq_nil {found : List String} (h : st.directory? ≠ none) :
    sources st found = [] ↔ st.files = [] ∧ found = [] := by
  cases hdirectory : st.directory? with
  | none => exact absurd hdirectory h
  | some directory => simp [sources, hdirectory]

theorem found_of_discover {directory : String} {paths : List String} (hdirectory : st.directory? = some directory)
    (hpaths : s.discover directory = .ok paths) : found s st = paths := by
  simp only [found, hdirectory, hpaths]

theorem run_of_readArguments (decoders : Xml.Decoders) (files : Files) (input : ByteArray) {args : List String}
    (h : readArguments args = .ok st) :
    run wording decoders files input args = runWith wording decoders files input st := by
  simp only [run, h]

theorem runWith_of_barred (decoders : Xml.Decoders) (input : ByteArray) {e : FileError} (h : Barred s st e) :
    runWith wording decoders (Files.ofSystem s) input st = ⟨.error (.inaccessible e), "", "", none⟩ := by
  obtain ⟨directory, hdirectory, hfailed⟩ := h
  have hdiscover : (Files.ofSystem s).discover directory = .error (.failed e) := hfailed
  simp only [runWith, hdirectory, hdiscover]

theorem runWith_of_misdirected (decoders : Xml.Decoders) (input : ByteArray) (hbarred : ∀ e, ¬Barred s st e)
    (h : Misdirected s st) : ∃ messages, runWith wording decoders (Files.ofSystem s) input st = failed messages := by
  obtain ⟨directory, hdirectory, hnone | ⟨hfound, hfiles⟩⟩ := h
  · have hdiscover : (Files.ofSystem s).discover directory = .error .notADirectory :=
      (FileSystem.discover_eq_notADirectory fun e he => hbarred e ⟨directory, hdirectory, he⟩).mpr hnone
    simp only [runWith, hdirectory, hdiscover]
    exact ⟨_, rfl⟩
  · have hdiscover : (Files.ofSystem s).discover directory = .ok [] := hfound
    have hsources : sources st [] = [] := (sources_eq_nil (by simp [hdirectory])).mpr ⟨hfiles, rfl⟩
    simp only [runWith, hdirectory, hdiscover, hsources, List.isEmpty_nil, if_true]
    exact ⟨_, rfl⟩

theorem runWith_of_not_misdirected (decoders : Xml.Decoders) (input : ByteArray) (hbarred : ∀ e, ¬Barred s st e)
    (h : ¬Misdirected s st) :
    ∃ messages, runWith wording decoders (Files.ofSystem s) input st =
      showView wording decoders (Files.ofSystem s) input st messages (sources st (found s st)) := by
  cases hdirectory : st.directory? with
  | none =>
    simp only [runWith, found, hdirectory]
    exact ⟨_, rfl⟩
  | some directory =>
    cases hdiscover : s.discover directory with
    | error e =>
      cases e with
      | failed e => exact absurd ⟨directory, hdirectory, hdiscover⟩ (hbarred e)
      | notADirectory =>
        have hnone : ¬s.HasDirectory directory := fun hdir => FileSystem.discover_ne_notADirectory hdir hdiscover
        exact absurd ⟨directory, hdirectory, .inl hnone⟩ h
    | ok paths =>
      have hpaths : (Files.ofSystem s).discover directory = .ok paths := hdiscover
      have hsources : sources st paths ≠ [] := fun hnil => by
        obtain ⟨hfiles, rfl⟩ := (sources_eq_nil (by simp [hdirectory])).mp hnil
        exact h ⟨directory, hdirectory, .inr ⟨hdiscover, hfiles⟩⟩
      have hempty : (sources st paths).isEmpty = false := by simpa using hsources
      simp only [runWith, hdirectory, hpaths, hempty, found_of_discover hdirectory hdiscover]
      exact ⟨_, rfl⟩

theorem sound_failed (messages : String) : (failed messages).Sound :=
  fun _ => ⟨rfl, rfl⟩

theorem sound_showView (files : Files) (messages : String) (sources : List (Option String)) :
    (showView wording decoders files input st messages sources).Sound := by
  simp only [showView]
  split
  · exact sound_failed _
  · split
    · exact fun _ => ⟨rfl, rfl⟩
    · exact sound_deliver _ _ _ _

theorem sound_runWith (files : Files) : (runWith wording decoders files input st).Sound := by
  unfold runWith
  split
  · exact sound_showView _ _ _ _
  · split
    · exact sound_failed _
    · exact fun _ => ⟨rfl, rfl⟩
    · simp only
      split
      · exact sound_failed _
      · exact sound_showView _ _ _ _

theorem sound_run (files : Files) (args : List String) : (run wording decoders files input args).Sound := by
  unfold run
  split
  · exact sound_runWith _ _
  · exact fun h => absurd rfl h
  · exact fun _ => ⟨rfl, rfl⟩

end

/-- A run with settings that were read fails with status one, and its last message tells of the first source that
failed; or it delivers a view of all that was read. -/
structure AllOrNothing (wording : Xml.SyntaxError → String) (decoders : Xml.Decoders) (s : FileSystem)
    (input : ByteArray) (st : Settings) (report : Report) (after : FileSystem) : Prop where
  failing : report.status = .ok 1 ↔ Misdirected s st ∨ (firstFailure? decoders s input st).isSome
  message : ∀ label e, ¬Misdirected s st → firstFailure? decoders s input st = some (label, e) →
    ∃ before, report.messages = before ++ errorLine wording label e
  complete : report.status ≠ .ok 1 → report.status = .ok 0 ∧
    ∃ documents text, (reads decoders s input st).map (·.2) = documents.map .ok ∧ render st documents = .ok text ∧
      (withLineEnd text).toList.getLast? = some '\n' ∧ Delivered st s after report.output (withLineEnd text)

section
variable (wording : Xml.SyntaxError → String) (decoders : Xml.Decoders) {s : FileSystem} {input : ByteArray}
  {st : Settings}

theorem allOrNothing_of_misdirected (hbarred : ∀ e, ¬Barred s st e) (h : Misdirected s st) :
    let report := runWith wording decoders (Files.ofSystem s) input st
    AllOrNothing wording decoders s input st report (systemAfter s report) := by
  obtain ⟨messages, hfailed⟩ := runWith_of_misdirected wording decoders input hbarred h
  simp only [hfailed]
  exact ⟨⟨fun _ => .inl h, fun _ => rfl⟩, fun _ _ hnot => absurd h hnot, fun hstatus => absurd rfl hstatus⟩

theorem allOrNothing_of_not_misdirected (hstorable : Storable s input) (hbarred : ∀ e, ¬Barred s st e)
    (h : ¬Misdirected s st) :
    let report := runWith wording decoders (Files.ofSystem s) input st
    (∀ e, report.status ≠ .error (.unwritable e)) →
      AllOrNothing wording decoders s input st report (systemAfter s report) := by
  obtain ⟨messages, hshow⟩ := runWith_of_not_misdirected wording decoders input hbarred h
  simp only [hshow]
  intro hwritten
  cases hfirst : firstFailure? decoders s input st with
  | some failure =>
    obtain ⟨label, e⟩ := failure
    obtain ⟨progress, hfailed⟩ := showView_of_failure wording st messages hfirst
    rw [hfailed]
    refine ⟨⟨fun _ => .inr (by rw [hfirst]; rfl), fun _ => rfl⟩, fun l f _ heq => ?_,
      fun hstatus => absurd rfl hstatus⟩
    cases hfirst.symm.trans heq
    exact ⟨progress, rfl⟩
  | none =>
    obtain ⟨documents, text, hreads, htext, progress, hdeliver⟩ :=
      showView_of_no_failure wording st messages hstorable hfirst
    rw [hdeliver] at hwritten ⊢
    obtain ⟨hstatus, hdelivered⟩ := delivered_deliver rfl hwritten
    refine ⟨⟨fun hone => ?_, fun hor => ?_⟩, fun _ _ _ heq => absurd (hfirst.symm.trans heq) nofun, fun _ => ?_⟩
    · rw [hstatus] at hone
      cases hone
    · rw [hfirst] at hor
      exact hor.elim (absurd · h) nofun
    · exact ⟨hstatus, documents, text, hreads, htext, getLast?_withLineEnd text, hdelivered⟩

end

/-- **All or nothing.** A run that ends with another status than zero shows nothing and leaves every file as it
was. Where the directory to look into can be looked into, it ends with one exactly if it is misdirected or some source
cannot be read, the first of which has the last message, and otherwise the view is complete and goes to one place.
What is left open is a run that cannot write its own file. -/
theorem runOn_all_or_nothing (wording : Xml.SyntaxError → String) (decoders : Xml.Decoders) (s : FileSystem)
    (input : ByteArray) (hstorable : Storable s input) (args : List String) (report : Report) (after : FileSystem)
    (h : runOn wording decoders s input args = (report, after)) :
    (report.status ≠ .ok 0 → report.output = "" ∧ after = s) ∧
    ∀ st, readArguments args = .ok st →
      (∀ e, Barred s st e → report = ⟨.error (.inaccessible e), "", "", none⟩) ∧
      ((∀ e, ¬Barred s st e) → (∀ e, report.status ≠ .error (.unwritable e)) →
        AllOrNothing wording decoders s input st report after) := by
  rw [runOn_eq] at h
  obtain ⟨rfl, rfl⟩ := Prod.mk.inj h
  constructor
  · intro hstatus
    obtain ⟨houtput, hsaved⟩ := sound_run _ _ args hstatus
    exact ⟨houtput, systemAfter_of_not_saved hsaved⟩
  · intro st hst
    rw [run_of_readArguments wording decoders (Files.ofSystem s) input hst]
    refine ⟨fun e hbarred => runWith_of_barred wording decoders input hbarred, fun hbarred hwritten => ?_⟩
    by_cases hmisdirected : Misdirected s st
    · exact allOrNothing_of_misdirected wording decoders hbarred hmisdirected
    · exact allOrNothing_of_not_misdirected wording decoders hstorable hbarred hmisdirected hwritten

def cabinet : FileSystem where
  top := .directory [("a.xml", .file "<a/>".toUTF8), ("d", .directory [])]
  here := []
  refuses r := if r = .list ["d"] then some .permissionDenied else r.limits

/-- One run cannot read the second of its sources, another writes a file, and a third may not look around. -/
theorem runOn_all_or_nothing_tags :
    let wording := Xml.SyntaxError.message
    let failing := runOn wording .none cabinet ByteArray.empty ["tags", "a.xml", "c.xml"]
    let writing := runOn wording .none cabinet ByteArray.empty ["tags", "-o", "d/b", "/a.xml"]
    let barred := runOn wording .none cabinet ByteArray.empty ["tags", "--xml-dir", "d", "a.xml"]
    Storable cabinet ByteArray.empty ∧
      (failing.1.status = .ok 1 ∧ failing.1.output = "" ∧ failing.2 = cabinet ∧ ∃ before,
        failing.1.messages = before ++ errorLine wording "c.xml" (.file ⟨.noSuchFile, Path.ofString "c.xml"⟩)) ∧
      (writing.1.status = .ok 0 ∧ writing.1.output = "" ∧ writing.1.saved = some ("d/b", "1  a\n") ∧
        ∃ text : String, FileSystem.Saved cabinet writing.2 "d/b" text.toUTF8) ∧
      barred.1 = ⟨.error (.inaccessible ⟨.permissionDenied, Path.ofString "d"⟩), "", "", none⟩ ∧
        barred.2 = cabinet := by
  intro wording failing writing barred
  have hstorable : Storable cabinet ByteArray.empty := storable_of_files (by decide) ⟨"/", []⟩ (by decide)
  have hfree : ∀ {st : Settings}, st.directory? = none → (∀ e, ¬Barred cabinet st e) ∧ ¬Misdirected cabinet st := by
    intro st hnone
    constructor
    · rintro e ⟨d, hd, -⟩
      cases hnone.symm.trans hd
    · rintro ⟨d, hd, -⟩
      cases hnone.symm.trans hd
  have hall := runOn_all_or_nothing wording .none cabinet ByteArray.empty hstorable
  obtain ⟨hnothing, hfailing⟩ := hall ["tags", "a.xml", "c.xml"] failing.1 failing.2 rfl
  obtain ⟨-, hwriting⟩ := hall ["tags", "-o", "d/b", "/a.xml"] writing.1 writing.2 rfl
  obtain ⟨hunchanged, hbarred⟩ := hall ["tags", "--xml-dir", "d", "a.xml"] barred.1 barred.2 rfl
  have hone : failing.1.status = .ok 1 := rfl
  have hzero : writing.1.status = .ok 0 := rfl
  refine ⟨hstorable, ?_, ?_, ?_⟩
  · obtain ⟨houtput, hafter⟩ := hnothing fun h => absurd (hone.symm.trans h) (by simp)
    have hcomes := (hfailing _ rfl).2 (hfree rfl).1 nofun
    exact ⟨hone, houtput, hafter, hcomes.message _ _ (hfree rfl).2 rfl⟩
  · have hcomes := (hwriting _ rfl).2 (hfree rfl).1 nofun
    obtain ⟨-, documents, text, -, -, -, hdelivered⟩ := hcomes.complete fun h => absurd (hzero.symm.trans h) (by simp)
    obtain ⟨hsilent, hsaved⟩ := hdelivered.toFile "d/b" rfl (by decide)
    exact ⟨hzero, hsilent, by decide +kernel, _, hsaved⟩
  · have hreport := (hbarred _ rfl).1 ⟨.permissionDenied, Path.ofString "d"⟩ ⟨"d", rfl, rfl⟩
    refine ⟨hreport, (hunchanged fun h => ?_).2⟩
    rw [hreport] at h
    cases h

/-! ## Directories with overlong names -/

/-- A name that the system takes in a path but for no file. -/
structure Overlong (name : String) : Prop where
  isPart : Path.IsPart name
  nonnull : '\x00' ∉ name.toList
  long : 255 < name.utf8ByteSize
  bounded : name.utf8ByteSize < 4096

section
variable {s : FileSystem} {es : List (String × FileTree)} {name : String} (h : Overlong name)
include h

theorem Overlong.ofString_eq : Path.ofString name = ⟨"", [name]⟩ := by
  have hnormal : Path.Normal ⟨"", [name]⟩ := ⟨.inl rfl, by simpa using h.isPart⟩
  have htext : Path.text ⟨"", [name]⟩ = name := by simp [Path.text]
  rw [← htext, Path.ofString_text hnormal, htext]

theorem Overlong.lookup (hlimits : s.refuses = Request.limits) (hhere : s.top.get? s.here = some (.directory es)) :
    s.lookup (Path.ofString name) = .error .nameTooLong := by
  have htext : Path.text ⟨"", [name]⟩ = name := by simp [Path.text]
  have hfollow : Request.limits (.follow ⟨"", [name]⟩) = none := by
    rw [Request.limits, htext, if_neg (by simpa using h.nonnull), if_neg (Nat.not_le_of_lt h.bounded)]
  have henter : Request.limits (.enter s.here name) = some .nameTooLong := if_pos h.long
  have hstart : s.start ⟨"", [name]⟩ = s.here := rfl
  simp only [FileSystem.lookup, FileSystem.locate, h.ofString_eq, hlimits, hfollow, hstart, hhere, FileSystem.walk,
    henter]

/-- Such a directory is none, but looking for it fails. -/
theorem Overlong.barred {st : Settings} (hlimits : s.refuses = Request.limits)
    (hhere : s.top.get? s.here = some (.directory es)) (hst : st.directory = some name) :
    Barred s st ⟨.nameTooLong, Path.ofString name⟩ ∧ Misdirected s st := by
  have hlookup := h.lookup hlimits hhere
  have hdirectory : st.directory? = some name := by
    simp [Settings.directory?, hst, h.isPart.ne_empty]
  refine ⟨⟨name, hdirectory, FileSystem.discover_of_sight_error hlookup⟩, name, hdirectory, .inl ?_⟩
  rintro ⟨place, es, hes⟩
  cases hlookup.symm.trans hes

end

def overlong : String :=
  String.ofList (List.replicate 300 'a')

theorem toList_overlong : overlong.toList = List.replicate 300 'a' :=
  String.toList_ofList

theorem overlong_overlong : Overlong overlong := by
  have honly : ∀ {c : Char}, c ∈ overlong.toList → c = 'a' := fun hc =>
    List.eq_of_mem_replicate (toList_overlong ▸ hc)
  have hlong : 255 < overlong.utf8ByteSize := by decide +kernel
  refine ⟨⟨?_, ?_, fun hc => absurd (honly hc) (by decide)⟩, fun hc => absurd (honly hc) (by decide), hlong,
    by decide +kernel⟩
  · intro hempty
    rw [hempty] at hlong
    exact absurd hlong (by decide)
  · intro hdot
    rw [hdot] at hlong
    exact absurd hlong (by decide)

/-- A directory whose name is too long is none, and yet the run has no status. -/
theorem not_forall_all_or_nothing :
    ¬ ∀ (s : FileSystem) (input : ByteArray) (args : List String) (report : Report) (after : FileSystem)
      (st : Settings), Storable s input → runOn Xml.SyntaxError.message .none s input args = (report, after) →
        readArguments args = .ok st → (∀ e, report.status ≠ .error (.unwritable e)) →
        AllOrNothing Xml.SyntaxError.message .none s input st report after := by
  intro h
  let s : FileSystem := ⟨.directory [], [], Request.limits⟩
  let st : Settings := { Settings.start .tree with directory := some overlong }
  have hstorable : Storable s ByteArray.empty := storable_of_files (by decide) ⟨"/", []⟩ (List.forall_mem_nil _)
  have hplain : overlong.toList.head? ≠ some '-' := by
    rw [toList_overlong, List.head?_replicate]
    decide
  have hsets : Sets .tree ["--xml-dir", overlong] fun st => { st with directory := some overlong } :=
    sets_value (s := Switch.directory) rfl rfl (classify_of_plain hplain) fun _ => ⟨rfl, rfl⟩
  have hread : readArguments ["tree", "--xml-dir", overlong] = .ok st :=
    hsets.readArguments (List.forall_mem_nil _) rfl
  obtain ⟨hbarred, hmisdirected⟩ : Barred s st ⟨.nameTooLong, Path.ofString overlong⟩ ∧ Misdirected s st :=
    overlong_overlong.barred rfl rfl rfl
  have hstatus : (run Xml.SyntaxError.message .none (Files.ofSystem s) ByteArray.empty
      ["tree", "--xml-dir", overlong]).status = .error (.inaccessible ⟨.nameTooLong, Path.ofString overlong⟩) := by
    rw [run_of_readArguments _ _ _ _ hread, runWith_of_barred _ _ _ hbarred]
  have hcomes := h s ByteArray.empty ["tree", "--xml-dir", overlong] _ _ st hstorable (runOn_eq _ _ _ _ _) hread
    (by rw [hstatus]; nofun)
  cases hstatus.symm.trans (hcomes.failing.mpr (.inl hmisdirected))

end XmlShape.Command
