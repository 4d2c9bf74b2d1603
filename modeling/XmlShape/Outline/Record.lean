import XmlShape.Json
import XmlShape.Outline.Basic

/-! # Outlines as JSON

The outline of a summary as an object without the summary's own name. Children stand under their
names, so a child may take the place of a field of the same key. -/

namespace XmlShape.Outline

def leading (s : Summary) : List (String × Json) :=
  (if s.instances > 1 then [("count", .integer s.instances)] else []) ++
  (if s.range.repeatable then [("occurs", .string s.range.label)] else []) ++
  (if s.range.optional then [("optional", .boolean true)] else []) ++
  (if s.hasAttributes then [("attrs", .array ((annotations s).map .string))] else []) ++
  (if s.hasChildren then [("children", .array (s.children.map fun c => .string c.name))] else [])

def trailing (s : Summary) : List (String × Json) :=
  if s.hasText then [("text", .string s.type.name)] else []

mutual
def record : Summary → List (String × Json)
  | ⟨name, counts, mixed, texts, attributes, children⟩ =>
    let s : Summary := ⟨name, counts, mixed, texts, attributes, children⟩
    Json.putAll (putChildren (Json.putAll [] (leading s)) children) (trailing s)

/-- Puts the record of each child under its name. -/
def putChildren (fields : List (String × Json)) : List Summary → List (String × Json)
  | [] => fields
  | c :: cs => putChildren (Json.put c.name (.object (record c)) fields) cs
end

/-- The outlines of several summaries, each under its name. -/
def document (ss : List Summary) : Json :=
  .object (Json.putAll [] (ss.map fun s => (s.name, .object (record s))))

end XmlShape.Outline
