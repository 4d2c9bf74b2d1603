import XmlShape.Element
import XmlShape.Xml.Node
import XmlShape.Xml.Uri

/-! # Namespaces in scope

A scope lists prefixes with the namespaces they stand for, those declared last first; the empty prefix
is that of the default namespace. -/

namespace XmlShape.Xml

def xmlNamespace : String := "http://www.w3.org/XML/1998/namespace"

/-- The namespace of namespace declarations, which nobody may declare. -/
def declarationNamespace : String := "http://www.w3.org/2000/xmlns/"

abbrev Scope := List (String × String)

namespace Scope

/-- A name in the part before its colon, empty if there is none, and the part after it. -/
def splitName (name : String) : String × String :=
  match splitAt? ":" name.toList with
  | some (p, l) => (String.ofList p, String.ofList l)
  | none => ("", name)

/-- A name with at most one colon, which has a name on either side. -/
def isQualifiedName (name : String) : Bool :=
  match splitAt? ":" name.toList with
  | some (p, l) =>
    !p.isEmpty && !l.contains ':' && match l with
      | c :: _ => isNameStart c
      | [] => false
  | none => true

def declaredPrefix? (name : String) : Option String :=
  if name = "xmlns" then some ""
  else if isNamespaceDeclaration name then some (splitName name).2
  else none

/-- The namespace declarations among attributes; one of the prefix `xml` changes nothing. -/
def declarations (attributes : List (String × String)) : List (String × String) :=
  attributes.filterMap fun a =>
    match declaredPrefix? a.1 with
    | some p => if p = "xml" then none else some (p, a.2)
    | none => none

def bound? (scope : Scope) (p : String) : Option String :=
  (scope.find? fun d => d.1 == p).map (·.2)

def extend (outer : Scope) (own : List (String × String)) : Scope :=
  own ++ outer.filter fun d => !(own.any fun o => o.1 == d.1)

/-- The namespace of a prefix, which may be the one that is always bound. -/
def uri? (scope : Scope) (p : String) : Option String :=
  if p = "xml" then some xmlNamespace else bound? scope p

/-- The prefix under which attributes of a namespace appear: the last one in scope that stands for it. -/
def prefixFor? (scope : Scope) (uri : String) : Option String :=
  if uri = xmlNamespace then some "xml"
  else (scope.reverse.find? fun d => d.1 != "" && d.2 == uri).map (·.1)

/-- The name under which an attribute appears in an element with this scope. -/
def attributeName (scope : Scope) (name : String) : String :=
  let (p, l) := splitName name
  if p = "" then l
  else
    match (uri? scope p).bind (prefixFor? scope) with
    | some q => q ++ ":" ++ l
    | none => l

def declarationName (p : String) : String :=
  if p = "" then "xmlns" else "xmlns:" ++ p

/-- The declarations that change what the scope outside says, under their attribute names. -/
def newDeclarations (outer : Scope) (own : List (String × String)) : List (String × String) :=
  (own.filter fun d => bound? outer d.1 != some d.2).map fun d => (declarationName d.1, d.2)

end Scope

def Node.directText (content : List Node) : String :=
  String.join <| content.filterMap fun
    | .text s => some s
    | _ => none

mutual
/-- The elements among the nodes, as they appear in an element with this scope. -/
def Node.elements (scope : Scope) : List Node → List Element
  | [] => []
  | n :: ns => (n.element? scope).toList ++ Node.elements scope ns

def Node.element? (scope : Scope) : Node → Option Element
  | .element name attributes content =>
    let own := Scope.declarations attributes
    let inner := scope.extend own
    some
      ⟨name, (properAttributes attributes).map fun a => (inner.attributeName a.1, a.2),
        Node.elements inner content, Node.directText content, scope.newDeclarations own⟩
  | _ => none
end

end XmlShape.Xml
