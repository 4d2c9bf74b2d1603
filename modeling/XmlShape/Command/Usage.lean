import XmlShape.Command.Grammar

/-! # Usage and help

The texts that show how the command line is used, for a screen of eighty columns. -/

namespace XmlShape.Command

def program : String := "xml-structure"

/-- The program with the view that the arguments are for, if there is one. -/
def programFor : Option View → String
  | none => program
  | some v => program ++ " " ++ v.name

def spaces (n : Nat) : String :=
  String.ofList (List.replicate n ' ')

def usageWidth : Nat := 78

/-- Puts as many parts on a line as fit; `line` is the line begun, of which `used` columns are full. -/
def fillFrom (indent : Nat) (line : String) (used : Nat) : List String → List String
  | [] => [line]
  | part :: parts =>
    if used + 1 + part.length > usageWidth then
      line :: fillFrom indent (spaces indent ++ part) (indent + part.length) parts
    else fillFrom indent (line ++ " " ++ part) (used + 1 + part.length) parts

/-- A switch in usage: its first name, with its value, in brackets. -/
def Switch.usage (s : Switch) : String :=
  let name := s.names.headD ""
  match s.value with
  | some value => "[" ++ name ++ " " ++ value ++ "]"
  | none => "[" ++ name ++ "]"

def viewChoices : String :=
  "\x7b" ++ ",".intercalate (View.all.map View.name) ++ "\x7d"

def usage : Option View → String
  | none => "usage: " ++ program ++ " " ++ Switch.help.usage ++ " " ++ viewChoices ++ " ...\n"
  | some v =>
    let first := "usage: " ++ programFor (some v)
    let indent := first.length + 1
    let lines :=
      fillFrom indent first first.length (v.switches.map Switch.usage) ++ [spaces indent ++ "[files ...]"]
    String.join (lines.map (· ++ "\n"))

def helpColumn : Nat := 24

/-- A term and its explanation. A term that leaves no room has a line of its own. -/
def helpEntry (indent : Nat) (term : String) (explanation : List String) : List String :=
  let start := spaces indent ++ term
  match explanation with
  | [] => [start]
  | e :: es =>
    if start.length + 2 ≤ helpColumn then
      (start ++ spaces (helpColumn - start.length) ++ e) :: es.map (spaces helpColumn ++ ·)
    else start :: (e :: es).map (spaces helpColumn ++ ·)

def Switch.helpEntry (s : Switch) : List String :=
  let terms := s.names.map fun name =>
    match s.value with
    | some value => name ++ " " ++ value
    | none => name
  Command.helpEntry 2 (", ".intercalate terms) s.summary

def examples : List String :=
  ["tree catalog.xml", "tree catalog.xml --depth 2 --no-attrs", "outline --json catalog.xml",
    "xsd --xml-dir ./feeds -o feeds.xsd", "tags --depth 2 catalog.xml", "stat --json catalog.xml",
    "attrs --values catalog.xml"]

def helpLines : Option View → List String
  | none =>
    ["", "Show the merged structure of XML documents.", "", "positional arguments:", "  " ++ viewChoices] ++
      (View.all.flatMap fun v => helpEntry 4 v.name [v.summary]) ++
      ["", "options:"] ++ Switch.help.helpEntry ++
      ["", "Examples:"] ++ (examples.map fun e => "  " ++ program ++ " " ++ e) ++ [spaces 8]
  | some v =>
    ["", "positional arguments:"] ++
      helpEntry 2 "files" ["XML files (reads stdin if none are given)"] ++
      ["", "options:"] ++ v.switches.flatMap Switch.helpEntry

def help (v : Option View) : String :=
  usage v ++ String.join ((helpLines v).map (· ++ "\n"))

end XmlShape.Command
