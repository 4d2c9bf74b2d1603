import XmlShape.AttributePaths
import XmlShape.Command.Arguments
import XmlShape.Drawing
import XmlShape.FileSystem
import XmlShape.Outline.Record
import XmlShape.Schema.Markup
import XmlShape.Statistics
import XmlShape.Summary.Siblings
import XmlShape.Xml.Document

/-! # Running the command line

A run reads all its documents before it writes anything; if one of them cannot be read, nothing but a
message comes of it. -/

namespace XmlShape.Command

structure Files where
  read : String → Except FileError ByteArray
  /-- The XML files of a directory. -/
  discover : String → Except DiscoveryError (List String)
  /-- Why nothing can be written to a path. -/
  obstacle : String → Option FileError

/-- What ends a run before it has a status. -/
inductive Obstacle where
  /-- A directory cannot be looked into although there may be one. -/
  | inaccessible (e : FileError)
  | unwritable (e : FileError)
  | unprintable (e : Xml.PrintError)
  | immeasurable (e : Size.SizeError)

structure Report where
  status : Except Obstacle Nat
  output : String
  messages : String
  saved : Option (String × String)

structure Document where
  label : String
  size : Nat
  root : Element

inductive SourceError where
  | file (e : FileError)
  | document (e : Xml.ReadError)

/-- The message for a source that cannot be read; `wording` tells what is wrong with a document. -/
def SourceError.message (wording : Xml.SyntaxError → String) : SourceError → String
  | file e => e.message
  | document .emptyInput => "Empty input"
  | document (.malformed cause) => wording cause

def isStandardInput (source : Option String) : Bool :=
  source.isNone || source == some "-"

def label (source : Option String) : String :=
  match source with
  | none => "(stdin)"
  | some path => if path = "" then "(stdin)" else path

def readDocument (decoders : Xml.Decoders) (files : Files) (input : ByteArray) (source : Option String) :
    Except SourceError Document := do
  let data ←
    if isStandardInput source then pure input
    else (files.read (source.getD "")).mapError SourceError.file
  let root ← (Xml.readBytes decoders data).mapError SourceError.document
  pure ⟨label source, data.size, root⟩

/-- Reads the sources one after the other; standard input is empty after its first use. -/
def readDocuments (decoders : Xml.Decoders) (files : Files) (input : ByteArray) :
    List (Option String) → List (String × Except SourceError Document)
  | [] => []
  | s :: ss =>
    (label s, readDocument decoders files input s) ::
      readDocuments decoders files (if isStandardInput s then ByteArray.empty else input) ss

def progressLine (index total : Nat) (d : Document) : String :=
  s!"  [{index}/{total}] {(Path.ofString d.label).name}: <{d.root.name}> ({d.root.size} elements)\n"

/-- The messages up to the first source that could not be read, and the documents if there is none. -/
def collect (wording : Xml.SyntaxError → String) (verbose : Bool) (total : Nat) (index : Nat) :
    List (String × Except SourceError Document) → String × Option (List Document)
  | [] => ("", some [])
  | (label, .error e) :: _ => ("ERROR: " ++ label ++ ": " ++ e.message wording ++ "\n", none)
  | (_, .ok d) :: rest =>
    let line := if verbose then progressLine index total d else ""
    let (messages, documents) := collect wording verbose total (index + 1) rest
    (line ++ messages, documents.map (d :: ·))

/-- The view of the documents, and what is said about it first. -/
def render (st : Settings) (documents : List Document) : Except Obstacle String :=
  let roots := documents.map (·.root)
  match st.view with
  | .tree =>
    .ok ("\n\n".intercalate
      ((Summary.ofDocuments roots).map (Drawing.render ⟨st.depth, st.attributes, st.counts⟩)))
  | .outline =>
    let summaries := Summary.ofDocuments roots
    .ok (if st.json then (Outline.document summaries).text
      else "\n\n".intercalate (summaries.map Outline.render))
  | .xsd => (Schema.render (Summary.ofDocuments roots)).mapError .unprintable
  | .tags =>
    let tags := TagCount.sort st.order (TagCount.ofDocuments roots st.depth)
    .ok (if st.json then (Json.array (tags.map TagCount.toJson)).text else TagCount.render tags)
  | .stat =>
    let all := documents.map fun d => Statistics.ofDocument d.root d.label d.size
    if st.json then
      match all with
      | [s] => .ok s.toJson.text
      | all => .ok (Json.array (all.map Statistics.toJson)).text
    else
      match all.mapM Statistics.render with
      | .ok texts => .ok ("\n\n".intercalate texts)
      | .error e => .error (.immeasurable e)
  | .attrs =>
    let paths := AttributePath.ofDocuments roots
    .ok (if st.json then (Json.array (paths.map AttributePath.toJson)).text
      else AttributePath.render paths st.allValues)

/-- What is said about the merged summaries of the views that show them. -/
def mergeLine (st : Settings) (documents : List Document) : String :=
  match st.view with
  | .tree | .outline | .xsd =>
    let summaries := Summary.ofDocuments (documents.map (·.root))
    s!"  → {summaries.length} root tag(s), {Summary.sizeAll summaries} elements merged\n"
  | _ => ""

def withLineEnd (text : String) : String :=
  if text.toList.getLast? = some '\n' then text else text ++ "\n"

def deliver (files : Files) (st : Settings) (messages text : String) : Report :=
  let text := withLineEnd text
  match st.output with
  | none | some "" => ⟨.ok 0, text, messages, none⟩
  | some path =>
    match files.obstacle path with
    | some e => ⟨.error (.unwritable e), "", messages, none⟩
    | none =>
      let note := if st.verbose then "Output written to: " ++ path ++ "\n" else ""
      ⟨.ok 0, "", messages ++ note, some (path, text)⟩

def failed (messages : String) : Report :=
  ⟨.ok 1, "", messages, none⟩

/-- Reads the sources and shows the view; `messages` were already given. -/
def showView (wording : Xml.SyntaxError → String) (decoders : Xml.Decoders) (files : Files)
    (input : ByteArray) (st : Settings) (messages : String) (sources : List (Option String)) : Report :=
  let total := sources.length
  let opening :=
    if st.verbose then s!"XML Structure Explorer: {st.view.name} ({total} document(s))\n" else ""
  let (progress, documents) :=
    collect wording st.verbose total 1 (readDocuments decoders files input sources)
  match documents with
  | none => failed (messages ++ opening ++ progress)
  | some documents =>
    let summary := if st.verbose then mergeLine st documents else ""
    let messages := messages ++ opening ++ progress ++ summary
    match render st documents with
    | .error e => ⟨.error e, "", messages, none⟩
    | .ok text => deliver files st messages text

/-- The directory to look into; an empty name stands for none. -/
def Settings.directory? (st : Settings) : Option String :=
  st.directory.filter (· != "")

/-- The files named, then those found in the directory; standard input where neither is asked for. -/
def sources (st : Settings) (found : List String) : List (Option String) :=
  if st.files.isEmpty && st.directory?.isNone then [none] else (st.files ++ found).map some

def runWith (wording : Xml.SyntaxError → String) (decoders : Xml.Decoders) (files : Files)
    (input : ByteArray) (st : Settings) : Report :=
  match st.directory? with
  | none => showView wording decoders files input st "" (sources st [])
  | some directory =>
    match files.discover directory with
    | .error .notADirectory => failed ("ERROR: XML directory not found: " ++ directory ++ "\n")
    | .error (.failed e) => ⟨.error (.inaccessible e), "", "", none⟩
    | .ok found =>
      let warning :=
        if found.isEmpty then "WARNING: No XML files found in " ++ directory ++ "\n" else ""
      if (sources st found).isEmpty then failed (warning ++ "ERROR: No XML files to read.\n")
      else showView wording decoders files input st warning (sources st found)

def run (wording : Xml.SyntaxError → String) (decoders : Xml.Decoders) (files : Files)
    (input : ByteArray) (args : List String) : Report :=
  match readArguments args with
  | .ok st => runWith wording decoders files input st
  | .error (.help v) => ⟨.ok 0, help v, "", none⟩
  | .error (.wrong v e) =>
    ⟨.ok 2, "", usage v ++ programFor v ++ ": error: " ++ e.message ++ "\n", none⟩

def Files.ofSystem (s : FileSystem) : Files where
  read := s.read
  discover := s.discover
  obstacle path :=
    match s.save path ByteArray.empty with
    | .ok _ => none
    | .error e => some e

/-- Runs on a file system; the result has it as the run leaves it. -/
def runOn (wording : Xml.SyntaxError → String) (decoders : Xml.Decoders) (s : FileSystem)
    (input : ByteArray) (args : List String) : Report × FileSystem :=
  let report := run wording decoders (Files.ofSystem s) input args
  match report.saved with
  | none => (report, s)
  | some (path, text) =>
    match s.save path text.toUTF8 with
    | .ok after => (report, after)
    | .error _ => (report, s)

end XmlShape.Command
