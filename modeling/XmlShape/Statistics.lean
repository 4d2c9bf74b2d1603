import XmlShape.Size
import XmlShape.Tags

/-! # Document statistics -/

namespace XmlShape

structure Statistics where
  file : String
  fileSize : Int
  root : String
  elements : Nat
  maxDepth : Nat
  rootNamespaces : List (String × String)
  namespaces : List String
  topLevel : List TagCount

namespace Statistics

/-- Appends the texts that are not in the list yet. -/
def addNew (found : List String) (uris : List String) : List String :=
  uris.foldl (fun us u => if us.contains u then us else us ++ [u]) found

mutual
/-- The namespaces declared in a tree, each once, after those already found. -/
def addNamespaces (found : List String) : Element → List String
  | ⟨_, _, children, _, namespaces⟩ =>
    addNamespacesAll (addNew found (namespaces.map (·.2))) children

def addNamespacesAll (found : List String) : List Element → List String
  | [] => found
  | e :: es => addNamespacesAll (addNamespaces found e) es
end

def ofDocument (root : Element) (file : String) (fileSize : Int) : Statistics :=
  { file, fileSize
    root := root.name
    elements := root.size
    maxDepth := root.height
    rootNamespaces := root.namespaces
    namespaces := addNamespaces [] root
    topLevel := TagCount.ofNames (root.children.map (·.name)) }

def rootTag (s : Statistics) : String :=
  let declarations := s.rootNamespaces.map fun d => d.1 ++ "=\"" ++ d.2 ++ "\""
  "<" ++ " ".intercalate (s.root :: declarations) ++ ">"

def render (s : Statistics) : Except Size.SizeError String := do
  let size ← Size.render s.fileSize
  let namespaces :=
    if s.namespaces.isEmpty then [] else ["Namespaces: " ++ ", ".intercalate s.namespaces]
  let topLevel :=
    if s.topLevel.isEmpty then []
    else
      ["Top-level:  " ++
        ", ".intercalate (s.topLevel.map fun t => "<" ++ t.name ++ "> x " ++ toString t.count)]
  pure <| "\n".intercalate <|
    ["File:       " ++ s.file ++ " (" ++ size ++ ")",
      "Root:       " ++ s.rootTag,
      "Elements:   " ++ Text.grouped s.elements,
      "Max depth:  " ++ toString s.maxDepth] ++
    namespaces ++ topLevel

def toJson (s : Statistics) : Json :=
  .object
    [("file", .string s.file),
      ("fileSize", .integer s.fileSize),
      ("root", .string s.root),
      ("elements", .integer s.elements),
      ("maxDepth", .integer s.maxDepth),
      ("namespaces", .array (s.namespaces.map .string)),
      ("topLevel", .array (s.topLevel.map TagCount.toJson))]

end Statistics

end XmlShape
