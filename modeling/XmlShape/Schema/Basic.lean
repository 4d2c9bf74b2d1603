import XmlShape.Summary.Basic

/-! # Inferred schemas

A schema declares one element for each summary. A child that is missing under some parent is
optional, and one that some parent has twice may occur without limit. -/

namespace XmlShape.Schema

inductive SimpleType where
  | string
  | integer
  | decimal
  | date
  | dateTime
  | boolean
deriving DecidableEq, Repr

/-- The narrowest of these types that the samples suggest; dates with a time among them make it a type
of points in time. -/
def SimpleType.ofSamples (samples : List String) : SimpleType :=
  match SampleType.ofSamples samples with
  | .integer => integer
  | .decimal => decimal
  | .date => if samples.all SampleType.isDate then date else dateTime
  | .boolean => boolean
  | .string => string

inductive ValueType where
  | simple (type : SimpleType)
  | oneOf (values : List String)
deriving DecidableEq

structure AttributeDecl where
  name : String
  type : ValueType
  required : Bool
deriving DecidableEq

mutual
structure ElementDecl where
  name : String
  optional : Bool
  unbounded : Bool
  content : Content

inductive Content where
  /-- No attributes, and no content was seen. -/
  | bare
  /-- Text alone. -/
  | typed (type : SimpleType)
  /-- Text with attributes. -/
  | extended (base : SimpleType) (attributes : List AttributeDecl)
  /-- Attributes alone. -/
  | attributed (attributes : List AttributeDecl)
  /-- Children, perhaps with text between them. -/
  | sequence (mixed : Bool) (particles : List ElementDecl) (attributes : List AttributeDecl)
end

def AttributeDecl.ofSummary (elements : Int) (a : AttributeSummary) : AttributeDecl :=
  ⟨a.name,
    if a.isEnumeration then .oneOf a.values.toList
    else .simple (SimpleType.ofSamples a.values.toList),
    a.isRequired elements⟩

mutual
def ElementDecl.ofSummary : Summary → ElementDecl
  | ⟨name, counts, _, texts, attributes, children⟩ =>
    let range := OccurrenceRange.ofCounts counts
    let decls := attributes.map (AttributeDecl.ofSummary (total counts))
    let content :=
      if !children.isEmpty then
        Content.sequence (!texts.isEmpty) (ElementDecl.ofSummaries children) decls
      else if attributes.isEmpty then
        if texts.isEmpty then Content.bare else Content.typed (SimpleType.ofSamples texts)
      else if texts.isEmpty then Content.attributed decls
      else Content.extended (SimpleType.ofSamples texts) decls
    ⟨name, range.optional, range.repeatable, content⟩

def ElementDecl.ofSummaries : List Summary → List ElementDecl
  | [] => []
  | s :: ss => ElementDecl.ofSummary s :: ElementDecl.ofSummaries ss
end

end XmlShape.Schema
