import XmlShape.Drawing
import XmlShape.Outline.Record
import XmlShape.Schema.Markup
import XmlShape.Summary.Siblings
import XmlShape.Tags
import XmlShape.Xml.Document

/-! # Dashboard

A page on which documents are uploaded or pasted and their merged structure is browsed in tabs. -/

namespace XmlShape.Dashboard

inductive Tab where
  | tree
  | outline
  | json
  | xsd
  | tags
deriving DecidableEq

def Tab.title : Tab → String
  | tree => "Tree"
  | outline => "Outline"
  | json => "JSON"
  | xsd => "XSD"
  | tags => "Tags"

inductive Place where
  | main
  | sidebar
  | tab (t : Tab)
deriving DecidableEq

inductive Item where
  | title (s : String)
  | uploader (label : String) (types : List String) (several : Bool)
  | textArea (label : String) (height : Nat)
  | divider
  | subheader (s : String)
  | slider (label : String) (least greatest initial : Int)
  | checkbox (label : String) (initial : Bool)
  | info (s : String)
  | error (s : String)
  | write (s : String)
  | tabs (titles : List String)
  | code (s : String) (language : Option String)
  | download (label content fileName mediaType : String)

structure Event where
  place : Place
  item : Item

structure Input where
  /-- Name and content of each uploaded file. -/
  uploads : List (String × ByteArray)
  pasted : String
  /-- The depth on the slider; zero for no limit. -/
  depth : Int
  attributes : Bool
  counts : Bool

def pageTitle : String := "XML Structure Explorer"

def controls : List Event :=
  [ .title pageTitle,
    .uploader "XML files" ["xml"] true,
    .textArea "...or paste a document" 150,
    .divider,
    .subheader "Tree options",
    .slider "Depth (0 = unlimited)" 0 30 0,
    .checkbox "Show attributes" true,
    .checkbox "Show counts" true ].map (Event.mk .sidebar)

/-- The bytes of the uploads, and of the pasted text unless it is blank. -/
def documents (input : Input) : List ByteArray :=
  input.uploads.map (·.2) ++
    if Text.isBlankText input.pasted then [] else [input.pasted.toUTF8]

def readAll (decoders : Xml.Decoders) (documents : List ByteArray) : Except Xml.ReadError (List Element) :=
  documents.mapM (Xml.readBytes decoders)

/-- What is shown when a document cannot be read; `wording` tells what is wrong with it. -/
def problem (wording : Xml.SyntaxError → String) : Xml.ReadError → String
  | .emptyInput => "Could not parse input: Empty input"
  | .malformed cause => "Could not parse input: " ++ wording cause

def statistics (documents : Nat) (tags : List TagCount) (summaries : List Summary) : List Event :=
  [ .divider,
    .subheader "Quick Stats",
    .write s!"{documents} document(s)",
    .write s!"{tags.length} distinct element name(s)",
    .write (Text.grouped (Summary.sizeAll summaries) ++ " elements") ].map (Event.mk .sidebar)

def allTabs : List Tab :=
  [.tree, .outline, .json, .xsd, .tags]

def drawingOptions (input : Input) : Drawing.Options :=
  ⟨if input.depth = 0 then none else some input.depth, input.attributes, input.counts⟩

def tabContents (input : Input) (tags : List TagCount) (summaries : List Summary) (schema : String) :
    List Event :=
  let json := (Outline.document summaries).text
  (summaries.map fun s => ⟨.tab .tree, .code (Drawing.render (drawingOptions input) s) none⟩) ++
  (summaries.map fun s => ⟨.tab .outline, .code (Outline.render s) (some "yaml")⟩) ++
  [⟨.tab .json, .code json (some "json")⟩,
    ⟨.tab .json, .download "Download JSON" json "structure.json" "application/json"⟩,
    ⟨.tab .xsd, .code schema (some "xml")⟩,
    ⟨.tab .xsd, .download "Download XSD" schema "structure.xsd" "application/xml"⟩,
    ⟨.tab .tags, .code (TagCount.render (TagCount.sort .byCount tags)) none⟩]

def results (input : Input) (roots : List Element) : Except Xml.PrintError (List Event) := do
  let summaries := Summary.ofDocuments roots
  let tags := TagCount.ofDocuments roots none
  let schema ← Schema.render summaries
  pure (statistics roots.length tags summaries ++
    ⟨.main, .tabs (allTabs.map Tab.title)⟩ :: tabContents input tags summaries schema)

def page (wording : Xml.SyntaxError → String) (decoders : Xml.Decoders) (input : Input) :
    Except Xml.PrintError (List Event) :=
  let documents := documents input
  if documents.isEmpty then
    .ok (controls ++ [⟨.main, .info "Upload one or more XML files to get started."⟩])
  else
    match readAll decoders documents with
    | .error e => .ok (controls ++ [⟨.main, .error (problem wording e)⟩])
    | .ok roots => (results input roots).map (controls ++ ·)

end XmlShape.Dashboard
