import XmlShape.Proofs.Gather
import XmlShape.Schema.Markup

/-! # Reading the markup of schemas

What the markup of a declaration says: its attributes, the parts of its type, and the declarations of
a schema one by one. -/

namespace XmlShape

namespace Schema

open Element

def attribute? (markup : Element) (key : String) : Option String :=
  (markup.attributes.find? fun a => a.1 == key).map (·.2)

def part? (markup : Element) (name : String) : Option Element :=
  markup.children.find? fun p => p.name == name

theorem name_toElement (d : ElementDecl) : d.toElement.name = "xs:element" := by
  cases d; rw [ElementDecl.toElement]; rfl

theorem toElements_eq : ∀ ds : List ElementDecl, ElementDecl.toElements ds = ds.map (·.toElement)
  | [] => by rw [ElementDecl.toElements]; rfl
  | d :: ds => by rw [ElementDecl.toElements, toElements_eq ds]; rfl

theorem attribute_name_toElement (d : ElementDecl) : attribute? d.toElement "name" = some d.name := by
  cases d
  rw [ElementDecl.toElement]
  simp [attribute?, node]

theorem attribute_type_toElement (d : ElementDecl) :
    attribute? d.toElement "type" = none ↔ ∀ type, d.content ≠ .typed type := by
  obtain ⟨name, optional, unbounded, content⟩ := d
  rw [ElementDecl.toElement]
  cases content <;> cases optional <;> cases unbounded <;>
    simp [attribute?, node, Content.typeAttribute, occurs]

theorem attribute_minOccurs_toElement (d : ElementDecl) :
    attribute? d.toElement "minOccurs" = some "0" ↔ d.optional = true := by
  obtain ⟨name, optional, unbounded, content⟩ := d
  rw [ElementDecl.toElement]
  cases content <;> cases optional <;> cases unbounded <;>
    simp [attribute?, node, Content.typeAttribute, occurs]

theorem attribute_minOccurs_eq_none (d : ElementDecl) :
    attribute? d.toElement "minOccurs" = none ↔ d.optional = false := by
  obtain ⟨name, optional, unbounded, content⟩ := d
  rw [ElementDecl.toElement]
  cases content <;> cases optional <;> cases unbounded <;>
    simp [attribute?, node, Content.typeAttribute, occurs]

theorem attribute_maxOccurs_eq_none (d : ElementDecl) :
    attribute? d.toElement "maxOccurs" = none ↔ d.unbounded = false := by
  obtain ⟨name, optional, unbounded, content⟩ := d
  rw [ElementDecl.toElement]
  cases content <;> cases optional <;> cases unbounded <;>
    simp [attribute?, node, Content.typeAttribute, occurs]

theorem attribute_maxOccurs_toElement (d : ElementDecl) :
    attribute? d.toElement "maxOccurs" = some "unbounded" ↔ d.unbounded = true := by
  obtain ⟨name, optional, unbounded, content⟩ := d
  rw [ElementDecl.toElement]
  cases content <;> cases optional <;> cases unbounded <;>
    simp [attribute?, node, Content.typeAttribute, occurs]

theorem attribute_name_attributeDecl (a : AttributeDecl) : attribute? a.toElement "name" = some a.name := by
  obtain ⟨name, type, required⟩ := a
  cases type <;> simp [attribute?, AttributeDecl.toElement, node]

theorem attribute_use_attributeDecl (a : AttributeDecl) :
    attribute? a.toElement "use" = some "required" ↔ a.required = true := by
  obtain ⟨name, type, required⟩ := a
  cases type <;> cases required <;> simp [attribute?, AttributeDecl.toElement, node]

theorem name_attributeDecl (a : AttributeDecl) : a.toElement.name = "xs:attribute" := by
  obtain ⟨name, type, required⟩ := a
  cases type <;> simp [AttributeDecl.toElement, node]

theorem part?_attributeDecls {n : String} (hn : n ≠ "xs:attribute") (m : String)
    (attributes : List (String × String)) (as : List AttributeDecl) :
    part? (node m attributes (as.map (·.toElement))) n = none := by
  refine List.find?_eq_none.mpr fun x hx => ?_
  obtain ⟨a, -, rfl⟩ := List.mem_map.mp hx
  rw [name_attributeDecl, beq_iff_eq]
  exact Ne.symm hn

theorem named_attributeDecls (as : List AttributeDecl) :
    named "xs:attribute" (as.map (·.toElement)) = as.map (·.toElement) := by
  refine List.filter_eq_self.mpr fun x hx => ?_
  obtain ⟨a, -, rfl⟩ := List.mem_map.mp hx
  rw [name_attributeDecl, beq_self_eq_true]

/-! ## Inferred declarations -/

def declaration (s : Summary) : Element :=
  (ElementDecl.ofSummary s).toElement

theorem ofSummaries_eq : ∀ ss : List Summary, ElementDecl.ofSummaries ss = ss.map ElementDecl.ofSummary
  | [] => by rw [ElementDecl.ofSummaries]; rfl
  | s :: ss => by rw [ElementDecl.ofSummaries, ofSummaries_eq ss]; rfl

theorem markup_children (ss : List Summary) : (markup ss).children = ss.map declaration := by
  have : (markup ss).children = ElementDecl.toElements (ElementDecl.ofSummaries ss) := rfl
  rw [this, toElements_eq, ofSummaries_eq, List.map_map]
  rfl

theorem name_ofSummary (s : Summary) : (ElementDecl.ofSummary s).name = s.name := by
  cases s; rw [ElementDecl.ofSummary]

theorem optional_ofSummary (s : Summary) : (ElementDecl.ofSummary s).optional = s.range.optional := by
  cases s; rw [ElementDecl.ofSummary]; rfl

theorem unbounded_ofSummary (s : Summary) : (ElementDecl.ofSummary s).unbounded = s.range.repeatable := by
  cases s; rw [ElementDecl.ofSummary]; rfl

end Schema

end XmlShape
