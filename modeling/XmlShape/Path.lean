/-! # Paths

A path is a list of names. Empty names and single dots count for nothing; double dots are kept. -/

namespace XmlShape

structure Path where
  /-- Empty, or the slashes before an absolute path. -/
  root : String
  parts : List String
deriving DecidableEq

namespace Path

/-- The names between slashes; `pending` holds the characters of the one begun, last first. -/
def splitSlashes (pending : List Char) : List Char → List String
  | [] => [String.ofList pending.reverse]
  | c :: cs =>
    if c = '/' then String.ofList pending.reverse :: splitSlashes [] cs
    else splitSlashes (c :: pending) cs

/-- Two slashes before a path differ from one; three or more do not. -/
def rootOf : List Char → String
  | '/' :: '/' :: '/' :: _ => "/"
  | '/' :: '/' :: _ => "//"
  | '/' :: _ => "/"
  | _ => ""

def ofString (s : String) : Path :=
  ⟨rootOf s.toList, (splitSlashes [] s.toList).filter fun p => p != "" && p != "."⟩

def text (p : Path) : String :=
  if p.root = "" && p.parts.isEmpty then "." else p.root ++ "/".intercalate p.parts

def child (p : Path) (name : String) : Path :=
  { p with parts := p.parts ++ [name] }

def name (p : Path) : String :=
  p.parts.getLast?.getD ""

end Path

end XmlShape
