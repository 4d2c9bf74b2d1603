import XmlShape.Schema.Basic
import XmlShape.Xml.Printer

/-! # Schemas as XML -/

namespace XmlShape.Schema

def schemaNamespace : String := "http://www.w3.org/2001/XMLSchema"

/-- An element of the schema language. -/
def node (name : String) (attributes : List (String × String)) (children : List Element) : Element :=
  ⟨"xs:" ++ name, attributes, children, "", []⟩

def SimpleType.name : SimpleType → String
  | string => "xs:string"
  | integer => "xs:integer"
  | decimal => "xs:decimal"
  | date => "xs:date"
  | dateTime => "xs:dateTime"
  | boolean => "xs:boolean"

def AttributeDecl.toElement (a : AttributeDecl) : Element :=
  let use := ("use", if a.required then "required" else "optional")
  match a.type with
  | .simple type => node "attribute" [("name", a.name), ("type", type.name), use] []
  | .oneOf values =>
    node "attribute" [("name", a.name), use]
      [node "simpleType" []
        [node "restriction" [("base", SimpleType.string.name)]
          (values.map fun v => node "enumeration" [("value", v)] [])]]

def Content.typeAttribute : Content → List (String × String)
  | .typed type => [("type", type.name)]
  | _ => []

def occurs (optional unbounded : Bool) : List (String × String) :=
  (if optional then [("minOccurs", "0")] else []) ++
    if unbounded then [("maxOccurs", "unbounded")] else []

mutual
def ElementDecl.toElement : ElementDecl → Element
  | ⟨name, optional, unbounded, content⟩ =>
    node "element" (("name", name) :: (content.typeAttribute ++ occurs optional unbounded))
      content.toElements

def Content.toElements : Content → List Element
  | .bare => []
  | .typed _ => []
  | .extended base attributes =>
    [node "complexType" []
      [node "simpleContent" []
        [node "extension" [("base", base.name)] (attributes.map (·.toElement))]]]
  | .attributed attributes => [node "complexType" [] (attributes.map (·.toElement))]
  | .sequence mixed particles attributes =>
    [node "complexType" (if mixed then [("mixed", "true")] else [])
      (node "sequence" [] (ElementDecl.toElements particles) :: attributes.map (·.toElement))]

def ElementDecl.toElements : List ElementDecl → List Element
  | [] => []
  | d :: ds => d.toElement :: ElementDecl.toElements ds
end

/-- The schema document's root, with a declaration for each summary. -/
def markup (ss : List Summary) : Element :=
  ⟨"xs:schema", [], ElementDecl.toElements (ElementDecl.ofSummaries ss), "",
    [("xmlns:xs", schemaNamespace)]⟩

/-- The schema document; a name or a value that XML cannot hold makes it fail. -/
def build (ss : List Summary) : Except Xml.PrintError Element :=
  if Xml.isPrintable (markup ss) then .ok (markup ss) else .error .forbiddenCharacter

def render (ss : List Summary) : Except Xml.PrintError String :=
  (build ss).bind Xml.print

end XmlShape.Schema
