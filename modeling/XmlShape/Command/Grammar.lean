/-! # Views and their options

Each view has its own options besides those that all views share. -/

namespace XmlShape.Command

inductive View where
  | tree
  | outline
  | xsd
  | tags
  | stat
  | attrs
deriving DecidableEq

inductive Topic where
  | help
  | directory
  | output
  | verbose
  | depth
  | noAttributes
  | noCounts
  | json
  | order
  | allValues
deriving DecidableEq

structure Switch where
  topic : Topic
  /-- The names, a short one before the long one. -/
  names : List String
  value : Option String
  /-- What the switch does, in lines as they are shown. -/
  summary : List String

namespace Switch

def title (s : Switch) : String :=
  "/".intercalate s.names

def help : Switch :=
  ⟨.help, ["-h", "--help"], none, ["show this help message and exit"]⟩

def directory : Switch :=
  ⟨.directory, ["--xml-dir"], some "XML_DIR",
    ["Also read every *.xml file in this directory (and one", "level of subdirectories)"]⟩

def output : Switch :=
  ⟨.output, ["-o", "--output"], some "OUTPUT", ["Write the result to a file instead of stdout"]⟩

def verbose : Switch :=
  ⟨.verbose, ["--verbose"], none, ["Show progress on stderr"]⟩

def depth (summary : String) : Switch :=
  ⟨.depth, ["--depth"], some "DEPTH", [summary]⟩

def noAttributes : Switch :=
  ⟨.noAttributes, ["--no-attrs"], none, ["Hide attributes"]⟩

def noCounts : Switch :=
  ⟨.noCounts, ["--no-counts"], none, ["Hide repetition counts"]⟩

def json (summary : String) : Switch :=
  ⟨.json, ["--json"], none, [summary]⟩

def orderNames : List String :=
  ["count", "name"]

def order : Switch :=
  ⟨.order, ["--sort"], some ("\x7b" ++ ",".intercalate orderNames ++ "\x7d"),
    ["Sort by count (default) or name"]⟩

def allValues : Switch :=
  ⟨.allValues, ["--values"], none, ["List every distinct value, however many"]⟩

end Switch

namespace View

def all : List View :=
  [tree, outline, xsd, tags, stat, attrs]

def name : View → String
  | tree => "tree"
  | outline => "outline"
  | xsd => "xsd"
  | tags => "tags"
  | stat => "stat"
  | attrs => "attrs"

def ofName? (name : String) : Option View :=
  all.find? fun v => v.name == name

def summary : View → String
  | tree => "Structural skeleton"
  | outline => "Annotated outline"
  | xsd => "Inferred XSD schema"
  | tags => "Element names with occurrence counts"
  | stat => "Quick overview of each document"
  | attrs => "Attributes by element path"

def ownSwitches : View → List Switch
  | tree =>
    [.depth "Stop descending below this depth (root = 1)", .noAttributes, .noCounts]
  | outline => [.json "Output the outline as JSON"]
  | xsd => []
  | tags =>
    [.order, .depth "Only count elements up to this depth (root = 1)", .json "Output as JSON"]
  | stat => [.json "Output as JSON"]
  | attrs => [.allValues, .json "Output as JSON"]

def switches (v : View) : List Switch :=
  [.help, .directory, .output, .verbose] ++ v.ownSwitches

end View

end XmlShape.Command
