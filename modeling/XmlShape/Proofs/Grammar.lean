import XmlShape.Proofs.Names
import XmlShape.Proofs.Printable

/-! # The grammar of schemas

What the schema language asks of the markup, whatever the documents: declarations of one place have
distinct names, a type has one of three shapes, values to choose from are ascending. A schema inferred from
documents keeps these rules at every node, and declares each summary of the corpus once. -/

namespace XmlShape

inductive Element.Everywhere (P : Element → Prop) : Element → Prop
  | intro {e : Element} : P e → (∀ c ∈ e.children, Everywhere P c) → Everywhere P e

namespace Schema

open Element

/-! ## Rules -/

structure ElementRule (x : Element) : Prop where
  named : attribute? x "name" ≠ none
  /-- The type stands in an attribute or in the content, not in both. -/
  one_type : attribute? x "type" = none ∨ x.children = []
  content : x.children = [] ∨ ∃ type, x.children = [type] ∧ type.name = "xs:complexType"

structure SequenceRule (x : Element) : Prop where
  nonempty : x.children ≠ []
  particles : ∀ p ∈ x.children, p.name = "xs:element"
  distinct : (x.children.map (attribute? · "name")).Nodup

structure AttributesRule (xs : List Element) : Prop where
  only : ∀ x ∈ xs, x.name = "xs:attribute"
  distinct : (xs.map (attribute? · "name")).Nodup

inductive ComplexTypeRule (x : Element) : Prop
  | sequence {sequence : Element} {attributes : List Element} : x.children = sequence :: attributes →
      sequence.name = "xs:sequence" → AttributesRule attributes → ComplexTypeRule x
  | simpleContent {content extension : Element} : x.children = [content] → content.name = "xs:simpleContent" →
      content.children = [extension] → extension.name = "xs:extension" → AttributesRule extension.children →
      ComplexTypeRule x
  | attributes : x.children ≠ [] → AttributesRule x.children → ComplexTypeRule x

inductive AttributeRule (x : Element) : Prop
  | typed : attribute? x "type" ≠ none → x.children = [] → AttributeRule x
  | oneOf {type restriction : Element} {values : List String} : attribute? x "type" = none →
      x.children = [type] → type.name = "xs:simpleType" →
      type.children = [restriction] → restriction.name = "xs:restriction" →
      (∀ v ∈ restriction.children, v.name = "xs:enumeration") →
      restriction.children.map (attribute? · "value") = values.map some →
      2 ≤ values.length → values.length ≤ 10 → values.Pairwise (· < ·) → AttributeRule x

/-- The node keeps the rule for nodes of its name; for other names there is none. -/
inductive Lawful (x : Element) : Prop
  | ofElement : x.name = "xs:element" → ElementRule x → Lawful x
  | ofSequence : x.name = "xs:sequence" → SequenceRule x → Lawful x
  | ofComplexType : x.name = "xs:complexType" → ComplexTypeRule x → Lawful x
  | ofAttribute : x.name = "xs:attribute" → AttributeRule x → Lawful x
  | other : x.name ∉ ["xs:element", "xs:sequence", "xs:complexType", "xs:attribute"] → Lawful x

structure Grammatical (schema : Element) : Prop where
  top_level : ∀ d ∈ schema.children,
    d.name = "xs:element" ∧ attribute? d "minOccurs" = none ∧ attribute? d "maxOccurs" = none
  distinct : (schema.children.map (attribute? · "name")).Nodup
  lawful : Everywhere Lawful schema

mutual
/-- The elements that the markup declares, each by the names of the declarations around it and its own. -/
def declarations : Element → List (List String)
  | ⟨name, attributes, children, text, namespaces⟩ =>
    if name = "xs:element" then
      let own := (attribute? ⟨name, attributes, children, text, namespaces⟩ "name").getD ""
      [own] :: (declarationsAll children).map (own :: ·)
    else declarationsAll children

def declarationsAll : List Element → List (List String)
  | [] => []
  | e :: es => declarations e ++ declarationsAll es
end

structure Declares (schema : Element) (corpus : List Summary) : Prop where
  in_order : declarations schema = Summary.pathsAll corpus
  once : (declarations schema).Nodup

theorem lawful_node {name : String}
    (h : "xs:" ++ name ∉ ["xs:element", "xs:sequence", "xs:complexType", "xs:attribute"])
    (attributes : List (String × String)) (children : List Element) : Lawful (node name attributes children) :=
  .other h

theorem nodup_names {α : Type} {f : α → Element} {name : α → String}
    (hname : ∀ x, attribute? (f x) "name" = some (name x)) {xs : List α} (hd : (xs.map name).Nodup) :
    ((xs.map f).map (attribute? · "name")).Nodup := by
  have hnames : (xs.map f).map (attribute? · "name") = (xs.map name).map some := by
    rw [List.map_map, List.map_map]
    exact List.map_congr_left fun x _ => hname x
  rw [hnames]
  exact hd.map fun _ _ => Option.some.inj

/-! ## Attributes -/

def AttributeDecl.Listed (a : AttributeDecl) : Prop :=
  ∀ values, a.type = .oneOf values → 2 ≤ values.length ∧ values.length ≤ 10 ∧ values.Pairwise (· < ·)

theorem listed_ofSummary (n : Int) (a : AttributeSummary) : (AttributeDecl.ofSummary n a).Listed := by
  intro values h
  simp only [AttributeDecl.ofSummary] at h
  split at h
  · rename_i henum
    cases h
    simp only [AttributeSummary.isEnumeration, Bool.and_eq_true, decide_eq_true_eq] at henum
    exact ⟨henum.1, henum.2, a.values.ascending⟩
  · cases h

theorem attributeRule_toElement {a : AttributeDecl} (h : a.Listed) : AttributeRule a.toElement := by
  obtain ⟨name, type, required⟩ := a
  cases type with
  | simple type =>
    exact .typed (by simp [attribute?, AttributeDecl.toElement, node]) rfl
  | oneOf values =>
    obtain ⟨htwo, hten, hascending⟩ := h values rfl
    refine .oneOf (by simp [attribute?, AttributeDecl.toElement, node]) rfl rfl rfl rfl (fun v hv => ?_) ?_
      htwo hten hascending
    · obtain ⟨value, -, rfl⟩ := List.mem_map.mp hv
      rfl
    · exact List.map_map.trans (List.map_congr_left fun v _ => by simp [attribute?, node])

theorem everywhere_attributeDecl {a : AttributeDecl} (h : a.Listed) : Everywhere Lawful a.toElement := by
  refine .intro (.ofAttribute (name_attributeDecl a) (attributeRule_toElement h)) ?_
  obtain ⟨name, type, required⟩ := a
  cases type with
  | simple type => exact List.forall_mem_nil _
  | oneOf values =>
    refine List.forall_mem_singleton.mpr (.intro (lawful_node (by decide) _ _) ?_)
    refine List.forall_mem_singleton.mpr (.intro (lawful_node (by decide) _ _) fun v hv => ?_)
    obtain ⟨value, -, rfl⟩ := List.mem_map.mp hv
    exact .intro (lawful_node (by decide) _ _) (List.forall_mem_nil _)

section
variable {as : List AttributeDecl}

theorem attributesRule_toElement (hd : (as.map (·.name)).Nodup) : AttributesRule (as.map (·.toElement)) where
  only x hx := by
    obtain ⟨a, -, rfl⟩ := List.mem_map.mp hx
    exact name_attributeDecl a
  distinct := nodup_names attribute_name_attributeDecl hd

theorem everywhere_attributes (hl : ∀ a ∈ as, a.Listed) : ∀ x ∈ as.map (·.toElement), Everywhere Lawful x := by
  intro x hx
  obtain ⟨a, ha, rfl⟩ := List.mem_map.mp hx
  exact everywhere_attributeDecl (hl a ha)

end

/-! ## The shapes of a type -/

section
variable {as : List AttributeDecl} (hd : (as.map (·.name)).Nodup) (hl : ∀ a ∈ as, a.Listed)

include hd hl

theorem everywhere_attributed (hne : as ≠ []) :
    ∀ x ∈ (Content.attributed as).toElements, Everywhere Lawful x := by
  rw [Content.toElements]
  refine List.forall_mem_singleton.mpr (.intro (.ofComplexType rfl ?_) (everywhere_attributes hl))
  exact .attributes (by simpa [node] using hne) (attributesRule_toElement hd)

theorem everywhere_extended (base : SimpleType) :
    ∀ x ∈ (Content.extended base as).toElements, Everywhere Lawful x := by
  rw [Content.toElements]
  refine List.forall_mem_singleton.mpr (.intro (.ofComplexType rfl ?_) ?_)
  · exact .simpleContent rfl rfl rfl rfl (attributesRule_toElement hd)
  · refine List.forall_mem_singleton.mpr (.intro (lawful_node (by decide) _ _) ?_)
    exact List.forall_mem_singleton.mpr (.intro (lawful_node (by decide) _ _) (everywhere_attributes hl))

theorem everywhere_sequence (mixed : Bool) {ps : List ElementDecl} (hne : ps ≠ [])
    (hdp : (ps.map (·.name)).Nodup) (hp : ∀ p ∈ ps, Everywhere Lawful p.toElement) :
    ∀ x ∈ (Content.sequence mixed ps as).toElements, Everywhere Lawful x := by
  rw [Content.toElements, toElements_eq]
  refine List.forall_mem_singleton.mpr (.intro (.ofComplexType rfl ?_) ?_)
  · exact .sequence rfl rfl (attributesRule_toElement hd)
  · refine List.forall_mem_cons.mpr ⟨.intro (.ofSequence rfl ?_) fun x hx => ?_, everywhere_attributes hl⟩
    · exact
        { nonempty := by simpa [node] using hne
          particles := by
            intro p hp
            obtain ⟨d, -, rfl⟩ := List.mem_map.mp hp
            exact name_toElement d
          distinct := nodup_names attribute_name_toElement hdp }
    · obtain ⟨d, hd, rfl⟩ := List.mem_map.mp hx
      exact hp d hd

end

theorem elementRule_toElement (d : ElementDecl) : ElementRule d.toElement := by
  have hname := attribute_name_toElement d
  have htype := attribute_type_toElement d
  obtain ⟨name, optional, unbounded, content⟩ := d
  have hchildren : (ElementDecl.toElement ⟨name, optional, unbounded, content⟩).children = content.toElements := by
    rw [ElementDecl.toElement]; rfl
  refine ⟨by rw [hname]; exact Option.some_ne_none _, ?_, ?_⟩
  · rw [htype, hchildren]
    cases content with
    | typed type => right; rw [Content.toElements]
    | _ => left; intro type h; cases h
  · rw [hchildren]
    cases content with
    | bare => left; rw [Content.toElements]
    | typed type => left; rw [Content.toElements]
    | _ => right; rw [Content.toElements]; exact ⟨_, rfl, rfl⟩

theorem everywhere_toElement {d : ElementDecl} (h : ∀ x ∈ d.content.toElements, Everywhere Lawful x) :
    Everywhere Lawful d.toElement := by
  refine .intro (.ofElement (name_toElement d) (elementRule_toElement d)) ?_
  cases d
  rw [ElementDecl.toElement]
  exact h

/-! ## Inferred declarations -/

theorem everywhere_declaration {s : Summary} (hs : s.Keyed) : Everywhere Lawful (declaration s) := by
  induction hs with
  | @intro s hchildren hattributes _ ih =>
    obtain ⟨name, counts, mixed, texts, attributes, children⟩ := s
    have hd : ((attributes.map (AttributeDecl.ofSummary (total counts))).map (·.name)).Nodup := by
      rw [List.map_map]; exact hattributes
    have hl : ∀ a ∈ attributes.map (AttributeDecl.ofSummary (total counts)), a.Listed := by
      intro a ha
      obtain ⟨b, -, rfl⟩ := List.mem_map.mp ha
      exact listed_ofSummary _ b
    rw [declaration, ElementDecl.ofSummary, ofSummaries_eq]
    refine everywhere_toElement ?_
    -- one case for each shape of content: bare or typed, attributed, extended, a sequence
    by_cases hc : children = []
    · by_cases ha : attributes = []
      · by_cases ht : texts = [] <;> simp [hc, ha, ht, Content.toElements]
      · have hne : attributes.map (AttributeDecl.ofSummary (total counts)) ≠ [] := by simpa using ha
        by_cases ht : texts = []
        · simpa [hc, ha, ht] using everywhere_attributed hd hl hne
        · simpa [hc, ha, ht] using everywhere_extended hd hl _
    · have hne : children.map ElementDecl.ofSummary ≠ [] := by simpa using hc
      have hnames : ((children.map ElementDecl.ofSummary).map (·.name)).Nodup := by
        rw [List.map_map]
        exact (List.map_congr_left fun c _ => name_ofSummary c) ▸ hchildren
      have hp : ∀ p ∈ children.map ElementDecl.ofSummary, Everywhere Lawful p.toElement := by
        intro p hp
        obtain ⟨c, hc, rfl⟩ := List.mem_map.mp hp
        exact ih c hc
      simpa [hc] using everywhere_sequence hd hl _ hne hnames hp

/-! ## Declarations -/

theorem declarationsAll_eq_nil : ∀ {es : List Element}, (∀ e ∈ es, declarations e = []) → declarationsAll es = []
  | [], _ => by rw [declarationsAll]
  | e :: es, h => by
    obtain ⟨he, hes⟩ := List.forall_mem_cons.mp h
    rw [declarationsAll, he, declarationsAll_eq_nil hes, List.append_nil]

theorem declarationsAll_singleton (e : Element) : declarationsAll [e] = declarations e := by
  rw [declarationsAll, declarationsAll, List.append_nil]

theorem declarations_node {name : String} (h : "xs:" ++ name ≠ "xs:element") (attributes : List (String × String))
    (children : List Element) : declarations (node name attributes children) = declarationsAll children := by
  rw [node, declarations, if_neg h]

theorem declarations_attributeDecl (a : AttributeDecl) : declarations a.toElement = [] := by
  obtain ⟨name, type, required⟩ := a
  cases type with
  | simple type => rw [AttributeDecl.toElement, declarations_node (by decide), declarationsAll]
  | oneOf values =>
    rw [AttributeDecl.toElement, declarations_node (by decide), declarationsAll_singleton,
      declarations_node (by decide), declarationsAll_singleton, declarations_node (by decide)]
    refine declarationsAll_eq_nil fun v hv => ?_
    obtain ⟨value, -, rfl⟩ := List.mem_map.mp hv
    rw [declarations_node (by decide), declarationsAll]

theorem declarationsAll_attributes (as : List AttributeDecl) : declarationsAll (as.map (·.toElement)) = [] := by
  refine declarationsAll_eq_nil fun x hx => ?_
  obtain ⟨a, -, rfl⟩ := List.mem_map.mp hx
  exact declarations_attributeDecl a

def Content.particles : Content → List ElementDecl
  | .bare => []
  | .typed _ => []
  | .extended _ _ => []
  | .attributed _ => []
  | .sequence _ particles _ => particles

theorem declarationsAll_content (c : Content) :
    declarationsAll c.toElements = declarationsAll (ElementDecl.toElements c.particles) := by
  cases c with
  | bare => rw [Content.toElements, Content.particles, ElementDecl.toElements]
  | typed type => rw [Content.toElements, Content.particles, ElementDecl.toElements]
  | attributed as =>
    rw [Content.toElements, Content.particles, ElementDecl.toElements, declarationsAll_singleton,
      declarations_node (by decide), declarationsAll_attributes, declarationsAll]
  | extended base as =>
    rw [Content.toElements, Content.particles, ElementDecl.toElements, declarationsAll_singleton,
      declarations_node (by decide), declarationsAll_singleton, declarations_node (by decide),
      declarationsAll_singleton, declarations_node (by decide), declarationsAll_attributes, declarationsAll]
  | sequence mixed ps as =>
    rw [Content.toElements, Content.particles, declarationsAll_singleton, declarations_node (by decide),
      declarationsAll, declarations_node (by decide), declarationsAll_attributes, List.append_nil]

theorem declarations_toElement (d : ElementDecl) :
    declarations d.toElement =
      [d.name] :: (declarationsAll (ElementDecl.toElements d.content.particles)).map (d.name :: ·) := by
  have hname := attribute_name_toElement d
  obtain ⟨name, optional, unbounded, content⟩ := d
  have hxs : "xs:" ++ "element" = "xs:element" := rfl
  rw [ElementDecl.toElement, node, hxs] at hname ⊢
  rw [declarations, if_pos rfl, hname, declarationsAll_content]
  rfl

theorem particles_ofSummary (s : Summary) :
    (ElementDecl.ofSummary s).content.particles = ElementDecl.ofSummaries s.children := by
  obtain ⟨name, counts, mixed, texts, attributes, children⟩ := s
  rw [ElementDecl.ofSummary]
  cases children with
  | nil =>
    rw [ElementDecl.ofSummaries]
    cases attributes <;> cases texts <;> rfl
  | cons c cs => rfl

theorem declarationsAll_ofSummaries {ss : List Summary} (h : ∀ s ∈ ss, declarations (declaration s) = s.paths) :
    declarationsAll (ElementDecl.toElements (ElementDecl.ofSummaries ss)) = Summary.pathsAll ss := by
  induction ss with
  | nil => rw [ElementDecl.ofSummaries, ElementDecl.toElements, declarationsAll, Summary.pathsAll]
  | cons s ss ih =>
    obtain ⟨hs, hss⟩ := List.forall_mem_cons.mp h
    rw [ElementDecl.ofSummaries, ElementDecl.toElements, declarationsAll, Summary.pathsAll, ih hss, ← hs]
    rfl

theorem declarations_declaration (s : Summary) : declarations (declaration s) = s.paths := by
  induction s using Summary.tree_induction with
  | step s ih =>
    rw [declaration, declarations_toElement, particles_ofSummary, name_ofSummary, declarationsAll_ofSummaries ih]
    cases s
    rw [Summary.paths]

/-! ## Schemas -/

theorem declares_markup (roots : List Element) :
    Declares (markup (Summary.ofDocuments roots)) (Summary.ofDocuments roots) := by
  have horder : declarations (markup (Summary.ofDocuments roots)) = Summary.pathsAll (Summary.ofDocuments roots) := by
    rw [markup, declarations, if_neg (by decide), declarationsAll_ofSummaries fun s _ => declarations_declaration s]
  exact ⟨horder, horder ▸ Summary.nodup_paths_ofDocuments roots⟩

theorem grammatical_markup (roots : List Element) : Grammatical (markup (Summary.ofDocuments roots)) where
  top_level d hd := by
    rw [markup_children] at hd
    obtain ⟨s, hs, rfl⟩ := List.mem_map.mp hd
    have hrange := Summary.range_ofDocuments s hs
    refine ⟨name_toElement _, ?_, ?_⟩
    · rw [declaration, attribute_minOccurs_eq_none, optional_ofSummary, hrange]
      rfl
    · rw [declaration, attribute_maxOccurs_eq_none, unbounded_ofSummary, hrange]
      rfl
  distinct := by
    rw [markup_children]
    refine nodup_names (fun s => ?_) (Summary.nodup_names_ofDocuments roots)
    rw [declaration, attribute_name_toElement, name_ofSummary]
  lawful := by
    have hname : (markup (Summary.ofDocuments roots)).name = "xs:schema" := rfl
    refine .intro (.other (by rw [hname]; decide)) fun d hd => ?_
    rw [markup_children] at hd
    obtain ⟨s, hs, rfl⟩ := List.mem_map.mp hd
    exact everywhere_declaration (Summary.keyed_ofDocuments roots s hs)

/-- **Grammar.** A schema built from documents keeps the rules of the schema language and declares each
summary once. Documents that XML can hold always have a schema. -/
theorem build_grammatical (roots : List Element) :
    (∀ schema, build (Summary.ofDocuments roots) = .ok schema →
      Grammatical schema ∧ Declares schema (Summary.ofDocuments roots)) ∧
    ((∀ r ∈ roots, Representable r) → ∃ schema, build (Summary.ofDocuments roots) = .ok schema) := by
  refine ⟨fun schema hs => ?_, fun h => ⟨_, if_pos (isPrintable_markup h)⟩⟩
  unfold build at hs
  split at hs
  · cases hs
    exact ⟨grammatical_markup roots, declares_markup roots⟩
  · cases hs

/-- An attribute with two values, and a child that only the first of two documents has. -/
theorem build_grammatical_pair :
    ∃ schema, build (Summary.ofDocuments
        [⟨"a", [("k", "1")], [⟨"b", [], [], "x", []⟩], "y", []⟩, ⟨"a", [("k", "2")], [], "", []⟩]) = .ok schema ∧
      Grammatical schema ∧ declarations schema = [["a"], ["a", "b"]] := by
  have hp : ∀ r ∈ [(⟨"a", [("k", "1")], [⟨"b", [], [], "x", []⟩], "y", []⟩ : Element),
      ⟨"a", [("k", "2")], [], "", []⟩], Representable r := by
    simp only [List.forall_mem_cons]
    exact ⟨.intro (by decide) (by decide) (by simpa using .intro (by decide) (by decide) (by simp)),
      .intro (by decide) (by decide) (by simp), by simp⟩
  obtain ⟨schema, hs⟩ := (build_grammatical _).2 hp
  obtain ⟨hgrammatical, hdeclares⟩ := (build_grammatical _).1 schema hs
  exact ⟨schema, hs, hgrammatical, hdeclares.in_order⟩

end Schema

end XmlShape
