import XmlShape.Proofs.Pasting
import XmlShape.Proofs.Runs

/-! # The page and the command line agree

Both read documents and show their merged structure, put together apart from each other. On the same bytes a view
is the same text in both, and where a document cannot be read, neither shows anything of the others
(`page_agrees`). -/

namespace XmlShape

namespace Command

/-! ## Runs on files -/

section
variable (wording : Xml.SyntaxError → String) {decoders : Xml.Decoders} {s : FileSystem} (input : ByteArray)
  {paths : List String} {datas : List ByteArray}

theorem isStandardInput_of_plain {path : String} (hpath : path.toList.head? ≠ some '-') :
    isStandardInput (some path) = false := by
  have hne : path ≠ "-" := fun h => hpath (h ▸ rfl)
  simpa [isStandardInput] using hne

theorem readDocument_of_read (decoders : Xml.Decoders) {path : String} {data : ByteArray}
    (hpath : path.toList.head? ≠ some '-') (hdata : s.read path = .ok data) :
    readDocument decoders (Files.ofSystem s) input (some path) =
      (Xml.readBytes decoders data).mapError SourceError.document >>= fun root => pure ⟨label (some path), data.size, root⟩ := by
  have hread : (Files.ofSystem s).read path = .ok data := hdata
  simp only [readDocument, isStandardInput_of_plain hpath, if_neg Bool.false_ne_true, Option.getD_some, hread]
  rfl

theorem collect_of_mapM (verbose : Bool) (total : Nat)
    (hfiles : List.Forall₂ (fun path data => s.read path = .ok data) paths datas) :
    ∀ (index : Nat) {roots : List Element}, (∀ p ∈ paths, p.toList.head? ≠ some '-') →
    datas.mapM (Xml.readBytes decoders) = .ok roots → ∃ progress documents,
      collect wording verbose total index (readDocuments decoders (Files.ofSystem s) input (paths.map some)) =
        (progress, some documents) ∧ documents.map (·.root) = roots := by
  induction hfiles with
  | nil =>
    intro index roots _ h
    cases h
    exact ⟨"", [], rfl, rfl⟩
  | @cons path data paths datas hdata _ ih =>
    intro index roots hpaths h
    obtain ⟨hpath, hpaths⟩ := List.forall_mem_cons.mp hpaths
    rw [List.mapM_cons] at h
    obtain ⟨root, hroot, h⟩ := Outcome.bind_eq_ok.mp h
    obtain ⟨roots, hroots, h⟩ := Outcome.bind_eq_ok.mp h
    cases h
    obtain ⟨progress, documents, hcollect, hdocuments⟩ := ih (index + 1) hpaths hroots
    have hread : readDocument decoders (Files.ofSystem s) input (some path) =
        .ok ⟨label (some path), data.size, root⟩ := by
      rw [readDocument_of_read input decoders hpath hdata, hroot]
      rfl
    simp only [List.map_cons, readDocuments, hread, collect, isStandardInput_of_plain hpath,
      if_neg Bool.false_ne_true, hcollect, Option.map_some]
    exact ⟨_, ⟨label (some path), data.size, root⟩ :: documents, rfl, by rw [List.map_cons, hdocuments]⟩

theorem findSome?_failure_of_mapM {e : Xml.ReadError}
    (hfiles : List.Forall₂ (fun path data => s.read path = .ok data) paths datas) :
    (∀ p ∈ paths, p.toList.head? ≠ some '-') → datas.mapM (Xml.readBytes decoders) = .error e → ∃ path ∈ paths,
      (readDocuments decoders (Files.ofSystem s) input (paths.map some)).findSome? failure? =
        some (label (some path), .document e) := by
  induction hfiles with
  | nil =>
    intro _ h
    cases h
  | @cons path data paths datas hdata _ ih =>
    intro hpaths h
    obtain ⟨hpath, hpaths⟩ := List.forall_mem_cons.mp hpaths
    rw [List.mapM_cons] at h
    have hread := readDocument_of_read input decoders hpath hdata
    simp only [List.map_cons, readDocuments, isStandardInput_of_plain hpath, if_neg Bool.false_ne_true]
    cases hroot : Xml.readBytes decoders data with
    | error f =>
      rw [hroot] at h hread
      cases h
      rw [hread]
      exact ⟨path, List.mem_cons_self .., rfl⟩
    | ok root =>
      rw [hroot] at h hread
      rw [hread]
      cases hroots : datas.mapM (Xml.readBytes decoders) with
      | ok roots =>
        rw [hroots] at h
        cases h
      | error f =>
        rw [hroots] at h
        cases h
        obtain ⟨found, hmem, hfound⟩ := ih hpaths hroots
        exact ⟨found, List.mem_cons_of_mem path hmem, hfound⟩

end

end Command

namespace Dashboard

open Command (View Settings Sets runOn)

def Tab.view : Tab → View
  | tree => .tree
  | outline => .outline
  | json => .outline
  | xsd => .xsd
  | tags => .tags

def options (input : Input) : Tab → List String
  | .tree =>
    (if input.depth = 0 then [] else ["--depth", toString input.depth]) ++
      (if input.attributes then [] else ["--no-attrs"]) ++ (if input.counts then [] else ["--no-counts"])
  | .json => ["--json"]
  | _ => []

def commandLine (input : Input) (paths : List String) (tab : Tab) : List String :=
  tab.view.name :: (options input tab ++ paths)

def settings (input : Input) (paths : List String) : Tab → Settings
  | .tree =>
    { Settings.start .tree with
      files := paths
      depth := (drawingOptions input).depth
      attributes := input.attributes
      counts := input.counts }
  | .json => { Settings.start .outline with files := paths, json := true }
  | tab => { Settings.start tab.view with files := paths }

section
variable {input : Input} {paths : List String}

/-- What the slider can say is read back. -/
theorem integer?_toString : ∀ n : Fin 31, (toString (n.val : Int)).toList.head? ≠ some '-' ∧
    Text.integer? (toString (n.val : Int)) = some (n.val : Int) := by
  decide +kernel

section
variable (hleast : 0 ≤ input.depth) (hgreatest : input.depth ≤ 30)
include hleast hgreatest

theorem sets_depth :
    Sets .tree ["--depth", toString input.depth] fun st => { st with depth := some input.depth } := by
  obtain ⟨n, hn⟩ : ∃ n : Fin 31, (n.val : Int) = input.depth :=
    ⟨⟨input.depth.toNat, by omega⟩, Int.toNat_of_nonneg hleast⟩
  obtain ⟨hplain, hinteger⟩ := integer?_toString n
  rw [hn] at hplain hinteger
  have hswitch : Command.classify View.tree.switches "--depth" =
      .ok (.switch (.depth "Stop descending below this depth (root = 1)") "--depth" none) := rfl
  refine Command.sets_value hswitch rfl (Command.classify_of_plain hplain) fun st => ⟨?_, rfl⟩
  simp only [Command.applyValue, Command.Switch.depth, hinteger]

theorem readArguments_commandLine (hpaths : ∀ p ∈ paths, p.toList.head? ≠ some '-') (tab : Tab) :
    Command.readArguments (commandLine input paths tab) = .ok (settings input paths tab) := by
  cases tab with
  | tree =>
    have hattributes : Sets .tree ["--no-attrs"] fun st => { st with attributes := false } :=
      Command.sets_flag rfl rfl fun st => ⟨rfl, rfl⟩
    have hcounts : Sets .tree ["--no-counts"] fun st => { st with counts := false } :=
      Command.sets_flag rfl rfl fun st => ⟨rfl, rfl⟩
    have hall := (((sets_depth hleast hgreatest).ite (input.depth = 0)).append
      (hattributes.ite (input.attributes = true))).append (hcounts.ite (input.counts = true))
    refine (hall.readArguments hpaths ?_).trans (congrArg Except.ok ?_)
    · simp only [Function.comp_apply]
      split_ifs <;> rfl
    · simp only [Function.comp_apply, settings, drawingOptions]
      split_ifs <;> simp [Settings.start, *]
  | json =>
    have hjson : Sets .outline ["--json"] fun st => { st with json := true } :=
      Command.sets_flag rfl rfl fun st => ⟨rfl, rfl⟩
    exact hjson.readArguments hpaths rfl
  | outline => exact Command.sets_nil.readArguments hpaths rfl
  | xsd => exact Command.sets_nil.readArguments hpaths rfl
  | tags => exact Command.sets_nil.readArguments hpaths rfl

end

end

/-! ## Pages -/

def textsOf (tab : Tab) (events : List Event) : List String :=
  events.filterMap fun e =>
    if e.place = .tab tab then
      match e.item with
      | .code s _ => some s
      | _ => none
    else none

section
variable {tab : Tab}

theorem textsOf_append (es fs : List Event) : textsOf tab (es ++ fs) = textsOf tab es ++ textsOf tab fs :=
  List.filterMap_append

theorem textsOf_codes {α : Type} (other : Tab) (text : α → String) (language : Option String) (xs : List α) :
    textsOf tab (xs.map fun x => ⟨.tab other, .code (text x) language⟩) = if other = tab then xs.map text else [] := by
  rw [textsOf, List.filterMap_map]
  split
  · rename_i h
    simp [h]
  · rename_i h
    simp [h]

theorem textsOf_sidebar {es : List Event} (h : ∀ e ∈ es, e.place = .sidebar) : textsOf tab es = [] := by
  refine List.filterMap_eq_nil_iff.mpr fun e he => ?_
  rw [h e he]
  rfl

end

/-- The parts in which a tab shows its view: the trees and the outlines one by one, the others whole. -/
def parts (input : Input) (roots : List Element) (schema : String) : Tab → List String
  | .tree => (Summary.ofDocuments roots).map (Drawing.render (drawingOptions input))
  | .outline => (Summary.ofDocuments roots).map Outline.render
  | .json => [(Outline.document (Summary.ofDocuments roots)).text]
  | .xsd => [schema]
  | .tags => [TagCount.render (TagCount.sort .byCount (TagCount.ofDocuments roots none))]

theorem textsOf_resultPage (input : Input) (roots : List Element) (schema : String) (tab : Tab) :
    textsOf tab (resultPage input roots schema) = parts input roots schema tab := by
  have hcontrols : textsOf tab controls = [] := textsOf_sidebar (by simp [controls])
  have hstatistics : ∀ n tags summaries, textsOf tab (statistics n tags summaries) = [] := fun n tags summaries =>
    textsOf_sidebar (by simp [statistics])
  have htabs : ∀ es : List Event, textsOf tab (⟨.main, .tabs (allTabs.map Tab.title)⟩ :: es) = textsOf tab es :=
    fun es => rfl
  rw [resultPage, textsOf_append, textsOf_append, hcontrols, hstatistics, htabs, tabContents, textsOf_append,
    textsOf_append, textsOf_codes, textsOf_codes]
  cases tab <;> simp [parts, textsOf]

/-- The command of a tab shows the parts as one text. -/
theorem render_settings {input : Input} {paths : List String} {documents : List Command.Document} {schema : String}
    (hschema : Schema.render (Summary.ofDocuments (documents.map (·.root))) = .ok schema) (tab : Tab) :
    Command.render (settings input paths tab) documents =
      .ok ("\n\n".intercalate (parts input (documents.map (·.root)) schema tab)) := by
  cases tab with
  | xsd => simp [settings, Settings.start, Command.render, parts, hschema, Tab.view, Except.mapError]
  | _ => simp [settings, Settings.start, Command.render, parts, drawingOptions, Tab.view]

/-- A tab shows what its command writes, or neither shows anything but what is wrong with a document. -/
structure Agrees (wording : Xml.SyntaxError → String) (events : List Event) (tab : Tab) (report : Command.Report) :
    Prop where
  failing : report.status = .ok 1 → ∃ e, events = controls ++ [⟨.main, .error (problem wording e)⟩] ∧
    ∃ before label, report.messages = before ++ Command.errorLine wording label (.document e)
  showing : report.status ≠ .ok 1 → report.status = .ok 0 ∧
    report.output = Command.withLineEnd ("\n\n".intercalate (textsOf tab events)) ∧
    (tab ≠ .tree → tab ≠ .outline → ∃ text, textsOf tab events = [text])

section
variable {wording : Xml.SyntaxError → String} {decoders : Xml.Decoders} {s : FileSystem} {stdin : ByteArray}
  {input : Input} {paths : List String}

theorem documents_of_uploads (hpasted : Text.isBlankText input.pasted = true) :
    documents input = input.uploads.map (·.2) := by
  simp [documents, hpasted]

/-- A run for a tab shows the files named and looks nowhere else. -/
theorem runOn_commandLine (hleast : 0 ≤ input.depth) (hgreatest : input.depth ≤ 30)
    (hpaths : ∀ p ∈ paths, p.toList.head? ≠ some '-') (hsome : paths ≠ []) (tab : Tab) :
    (runOn wording decoders s stdin (commandLine input paths tab)).1 =
      Command.showView wording decoders (Command.Files.ofSystem s) stdin (settings input paths tab) ""
        (paths.map some) := by
  have hread := readArguments_commandLine hleast hgreatest hpaths tab
  have hdirectory : (settings input paths tab).directory? = none := by
    cases tab <;> rfl
  have hfiles : (settings input paths tab).files = paths := by
    cases tab <;> rfl
  have hsources : Command.sources (settings input paths tab) [] = paths.map some := by
    simp [Command.sources, hfiles, hsome]
  rw [Command.runOn_eq, Command.run_of_readArguments _ _ _ _ hread]
  simp only [Command.runWith, hdirectory, hsources]

section
variable (hpaths : ∀ p ∈ paths, p.toList.head? ≠ some '-')
  (hdatas : List.Forall₂ (fun path data => s.read path = .ok data) paths (documents input))
include hpaths hdatas

/-- The first document that cannot be read ends the page as it ends the run. -/
theorem agrees_of_error {e : Xml.ReadError} (hread : readAll decoders (documents input) = .error e) (tab : Tab) :
    Agrees wording (controls ++ [⟨.main, .error (problem wording e)⟩]) tab
      (Command.showView wording decoders (Command.Files.ofSystem s) stdin (settings input paths tab) ""
        (paths.map some)) := by
  obtain ⟨path, -, hfirst⟩ := Command.findSome?_failure_of_mapM stdin hdatas hpaths hread
  obtain ⟨progress, hfailed⟩ := Command.showView_of_failure wording (settings input paths tab) "" hfirst
  rw [hfailed]
  exact ⟨fun _ => ⟨e, rfl, progress, _, rfl⟩, fun h => absurd rfl h⟩

/-- Where all documents are read, page and run show the same parts of them. -/
theorem agrees_of_ok {roots : List Element} {schema : String} (hread : readAll decoders (documents input) = .ok roots)
    (hschema : Schema.render (Summary.ofDocuments roots) = .ok schema) (tab : Tab) :
    Agrees wording (resultPage input roots schema) tab
      (Command.showView wording decoders (Command.Files.ofSystem s) stdin (settings input paths tab) ""
        (paths.map some)) := by
  obtain ⟨progress, found, hcollect, rfl⟩ :=
    Command.collect_of_mapM wording stdin false paths.length hdatas 1 hpaths hread
  have hquiet : (settings input paths tab).verbose = false ∧ (settings input paths tab).output = none := by
    cases tab <;> exact ⟨rfl, rfl⟩
  have hshown : ∃ messages, Command.showView wording decoders (Command.Files.ofSystem s) stdin (settings input paths tab) ""
        (paths.map some) =
      ⟨.ok 0, Command.withLineEnd ("\n\n".intercalate (parts input (found.map (·.root)) schema tab)), messages,
        none⟩ := by
    simp only [Command.showView, hquiet, List.length_map, hcollect, render_settings hschema tab, Command.deliver]
    exact ⟨_, rfl⟩
  obtain ⟨messages, hshown⟩ := hshown
  rw [hshown]
  refine ⟨fun h => absurd (Except.ok.inj h) (by decide), fun _ => ⟨rfl, ?_, fun htree houtline => ?_⟩⟩
  · rw [textsOf_resultPage]
  · rw [textsOf_resultPage]
    cases tab with
    | tree => exact absurd rfl htree
    | outline => exact absurd rfl houtline
    | _ => exact ⟨_, rfl⟩

end

/-- **The page and the command line agree.** -/
theorem page_agrees (wording : Xml.SyntaxError → String) (decoders : Xml.Decoders) (s : FileSystem)
    (stdin : ByteArray) (input : Input) (paths : List String) (huploads : input.uploads ≠ []) (hpasted : Text.isBlankText input.pasted = true)
    (hleast : 0 ≤ input.depth) (hgreatest : input.depth ≤ 30)
    (hpaths : ∀ p ∈ paths, p.toList.head? ≠ some '-')
    (hfiles : List.Forall₂ (fun path (upload : String × ByteArray) => s.read path = .ok upload.2) paths input.uploads) :
    ∃ events, page wording decoders input = .ok events ∧
      ∀ tab, Agrees wording events tab (runOn wording decoders s stdin (commandLine input paths tab)).1 := by
  have hsome : paths ≠ [] := fun h => huploads (by
    rw [h] at hfiles
    exact List.forall₂_nil_left_iff.mp hfiles)
  have hdatas : List.Forall₂ (fun path data => s.read path = .ok data) paths (documents input) := by
    rw [documents_of_uploads hpasted, List.forall₂_map_right_iff]
    exact hfiles
  have hdocuments : documents input ≠ [] := by
    rw [documents_of_uploads hpasted]
    simpa using huploads
  simp only [runOn_commandLine hleast hgreatest hpaths hsome]
  cases hread : readAll decoders (documents input) with
  | error e => exact ⟨_, page_of_readAll_error hdocuments hread, agrees_of_error hpaths hdatas hread⟩
  | ok roots =>
    obtain ⟨schema, hschema, hpage⟩ := page_of_readAll hdocuments hread
    exact ⟨_, hpage, agrees_of_ok hpaths hdatas hread hschema⟩

end

def twoUploads : Input where
  uploads := [("a.xml", "<a><b c='1'/><b/></a>".toUTF8), ("d.xml", "<d/>".toUTF8)]
  pasted := ""
  depth := 2
  attributes := true
  counts := false

theorem page_agrees_pair :
    let files := FileTree.directory [("a.xml", .file "<a><b c='1'/><b/></a>".toUTF8), ("d.xml", .file "<d/>".toUTF8)]
    let s : FileSystem := ⟨.directory [("in", files)], [], Request.limits⟩
    let run := fun tab =>
      (runOn Xml.SyntaxError.message .none s ByteArray.empty (commandLine twoUploads ["in/a.xml", "/in/d.xml"] tab)).1
    commandLine twoUploads ["in/a.xml", "/in/d.xml"] .tree =
        ["tree", "--depth", "2", "--no-counts", "in/a.xml", "/in/d.xml"] ∧
      (run .tree).output = "a\n└── b\n\nd\n" ∧
      ∃ events, page Xml.SyntaxError.message .none twoUploads = .ok events ∧
        ∀ tab, Agrees Xml.SyntaxError.message events tab (run tab) := by
  intro files s run
  refine ⟨by decide +kernel, by decide +kernel, ?_⟩
  exact page_agrees Xml.SyntaxError.message .none s ByteArray.empty twoUploads ["in/a.xml", "/in/d.xml"]
    (by simp [twoUploads]) rfl (by decide) (by decide) (by decide) (.cons rfl (.cons rfl .nil))

end Dashboard

end XmlShape
