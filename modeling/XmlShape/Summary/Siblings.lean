import XmlShape.Summary.Basic
import XmlShape.Text.Blank

/-! # Summaries of siblings and documents

Siblings of one name are folded, one instance after the other, into one summary. Several documents
are merged root by root, each of them a parent of its own. -/

namespace XmlShape

/-- One element with its content already summarised. -/
structure Instance where
  name : String
  attributes : List (String × String)
  /-- The trimmed character data. -/
  text : String
  hasChildren : Bool
  scope : List Summary

namespace Summary

/-- Adds an instance to a summary of `seen` earlier ones. -/
def fold (s : Summary) (seen : Nat) (i : Instance) : Summary :=
  { s with
    mixed := s.mixed || (i.text != "" && i.hasChildren)
    texts := if i.text = "" then s.texts else s.texts ++ [i.text]
    attributes := i.attributes.foldl (fun as a => AttributeSummary.record as a.1 a.2) s.attributes
    children :=
      (s.children.map fun c =>
          match find? i.scope c.name with
          | some d => c.absorb d
          | none => c.absentAfter 1) ++
        (i.scope.filter fun d => !contains s.children d.name).map (absentBefore seen) }

def foldAll (s : Summary) : Nat → List Instance → Summary
  | _, [] => s
  | seen, i :: is => foldAll (s.fold seen i) (seen + 1) is

/-- The summary of the instances of one name among the children of one parent. -/
def ofGroup (name : String) (group : List Instance) : Summary :=
  foldAll ⟨name, [(group.length : Int)], false, [], [], []⟩ 0 group

/-- A summary for each name, in the order in which the names first occur. -/
def ofInstances (is : List Instance) : List Summary :=
  (is.map Instance.name).eraseDups.map fun name => ofGroup name (is.filter (·.name == name))

end Summary

namespace Instance

mutual
def ofElement : Element → Instance
  | ⟨name, attributes, children, text, _⟩ =>
    ⟨name, attributes, Text.trim text, !children.isEmpty, Summary.ofInstances (ofElements children)⟩

def ofElements : List Element → List Instance
  | [] => []
  | e :: es => ofElement e :: ofElements es
end

end Instance

namespace Summary

def ofSiblings (es : List Element) : List Summary :=
  ofInstances (Instance.ofElements es)

/-- The summary of a document; its root occurs once. -/
def ofDocument (root : Element) : Summary :=
  ofGroup root.name [Instance.ofElement root]

def addDocument (corpus : List Summary) (s : Summary) : List Summary :=
  if contains corpus s.name then
    corpus.map fun t => if t.name = s.name then t.absorb s else t
  else corpus ++ [s]

/-- One summary for each root name, in the order of the documents. -/
def ofDocuments (roots : List Element) : List Summary :=
  (roots.map ofDocument).foldl addDocument []

end Summary

end XmlShape
