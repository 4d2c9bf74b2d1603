import XmlShape.Proofs.Grammar
import XmlShape.Proofs.Reading
import XmlShape.Proofs.Rereading

/-! # Schemas read back

The schema of summaries that came from documents is read back from its text as it was built. The elements and
attributes of a schema have names of its language, and what the documents say stands in values only
(`render_reread`). -/

namespace XmlShape

/-! ## Summaries of documents -/

inductive Element.FromDocument : Element → Prop
  | text {s : String} {root : Element} : Xml.readText s = .ok root → FromDocument root
  | bytes {decoders : Xml.Decoders} {bytes : ByteArray} {root : Element} :
    Xml.readBytes decoders bytes = .ok root → FromDocument root
  | child {e c : Element} : FromDocument e → c ∈ e.children → FromDocument c

theorem Element.FromDocument.representable {e : Element} (h : FromDocument e) : Representable e := by
  induction h with
  | text h => exact (Xml.legible_readText h).representable
  | bytes h => exact (Xml.legible_readBytes h).representable
  | child _ hc ih => exact ih.children _ hc

namespace Summary

open Element

/-- The summary was made from documents that were read, in one of the ways there are to make one. -/
inductive FromDocuments : Summary → Prop
  | ofDocument {root : Element} : FromDocument root → FromDocuments (ofDocument root)
  | ofSiblings {es : List Element} {s : Summary} : (∀ e ∈ es, FromDocument e) → s ∈ ofSiblings es → FromDocuments s
  | ofDocuments {roots : List Element} {s : Summary} : (∀ r ∈ roots, FromDocument r) → s ∈ ofDocuments roots →
      FromDocuments s
  | absorb {s t : Summary} : FromDocuments s → FromDocuments t → FromDocuments (s.absorb t)
  | merge {s t u : Summary} : FromDocuments s → FromDocuments t → s.merge t = .ok u → FromDocuments u
  | child {s c : Summary} : FromDocuments s → c ∈ s.children → FromDocuments c

structure Representable (s : Summary) : Prop where
  name : Xml.isText s.name = true
  elements : ∃ es, StandsFor s es ∧ ∀ e ∈ es, e.Representable

theorem representable_of_named {s : Summary} {es : List Element} (hname : s.name ∈ es.map (·.name))
    (hs : StandsFor s (named s.name es)) (hes : ∀ e ∈ es, e.Representable) : Representable s := by
  obtain ⟨e, he, hen⟩ := List.mem_map.mp hname
  exact ⟨hen ▸ (hes e he).name, _, hs, fun e he => hes e (mem_named.mp he).1⟩

theorem Representable.absorb {s t : Summary} (hs : Representable s) (ht : Representable t) :
    Representable (s.absorb t) := by
  obtain ⟨es, hse, hes⟩ := hs.elements
  obtain ⟨fs, htf, hfs⟩ := ht.elements
  have hname : (s.absorb t).name = s.name := by
    cases s
    rw [Summary.absorb]
  exact ⟨hname ▸ hs.name, es ++ fs, hse.absorb htf, List.forall_mem_append.mpr ⟨hes, hfs⟩⟩

theorem Representable.child {s c : Summary} (hs : Representable s) (hc : c ∈ s.children) : Representable c := by
  obtain ⟨es, hse, hes⟩ := hs.elements
  obtain ⟨hname, hce⟩ := hse.child hc
  obtain ⟨e, he, d, hd, hdn⟩ := mem_childNames.mp hname
  refine ⟨hdn ▸ ((hes e he).children d hd).name, _, hce, fun d hd => ?_⟩
  obtain ⟨e, he, hd, -⟩ := mem_childrenNamed.mp hd
  exact (hes e he).children d hd

theorem FromDocuments.representable {s : Summary} (h : FromDocuments s) : Representable s := by
  induction h with
  | @ofDocument root h =>
    have hname : (Summary.ofDocument root).name = root.name := by rw [ofDocument_eq, name_gather]
    exact ⟨hname ▸ h.representable.name, [root], standsFor_ofDocument root,
      List.forall_mem_singleton.mpr h.representable⟩
  | ofSiblings hes hs =>
    obtain ⟨hname, hs⟩ := standsFor_of_mem_ofSiblings hs
    exact representable_of_named hname hs fun e he => (hes e he).representable
  | ofDocuments hroots hs =>
    obtain ⟨hname, hs⟩ := standsFor_of_mem_ofDocuments hs
    exact representable_of_named hname hs fun r hr => (hroots r hr).representable
  | absorb _ _ hs ht => exact hs.absorb ht
  | merge _ _ h hs ht =>
    rcases merge_cases h with rfl | rfl
    · exact hs
    · exact hs.absorb ht
  | child _ hc hs => exact hs.child hc

theorem Representable.isPrintable {s : Summary} (h : Representable s) :
    Xml.isPrintable (Schema.declaration s) = true := by
  obtain ⟨es, ⟨counts, hs, -⟩, hes⟩ := h.elements
  rw [hs]
  exact Schema.isPrintable_gather _ counts es h.name hes

end Summary

namespace Schema

open Xml

/-! ## The names in a schema -/

def vocabulary : List String :=
  ["xs:element", "xs:attribute", "xs:simpleType", "xs:restriction", "xs:enumeration", "xs:complexType",
    "xs:simpleContent", "xs:extension", "xs:sequence"]

def keys : List String :=
  ["name", "type", "use", "base", "value", "minOccurs", "maxOccurs", "mixed"]

inductive Schematic : Element → Prop
  | intro {name : String} {attributes : List (String × String)} {children : List Element} : name ∈ vocabulary →
      (∀ k ∈ attributes.map (·.1), k ∈ keys) → (attributes.map (·.1)).Nodup → (∀ c ∈ children, Schematic c) →
      Schematic ⟨name, attributes, children, "", []⟩

theorem schematic_node {name : String} {attributes : List (String × String)} {children : List Element}
    (ks : List String) (hattributes : attributes.map (·.1) = ks)
    (hnames : "xs:" ++ name ∈ vocabulary ∧ (∀ k ∈ ks, k ∈ keys) ∧ ks.Nodup) (hchildren : ∀ c ∈ children, Schematic c) :
    Schematic (node name attributes children) := by
  obtain ⟨hname, hkeys, hdistinct⟩ := hnames
  exact .intro hname (hattributes ▸ hkeys) (hattributes ▸ hdistinct) hchildren

theorem schematic_attributeDecl (a : AttributeDecl) : Schematic a.toElement := by
  obtain ⟨name, type, required⟩ := a
  cases type with
  | simple type => exact schematic_node ["name", "type", "use"] rfl (by decide) (List.forall_mem_nil _)
  | oneOf values =>
    refine schematic_node ["name", "use"] rfl (by decide) (List.forall_mem_singleton.mpr ?_)
    refine schematic_node [] rfl (by decide) (List.forall_mem_singleton.mpr ?_)
    refine schematic_node ["base"] rfl (by decide) (List.forall_mem_map.mpr fun v _ => ?_)
    exact schematic_node ["value"] rfl (by decide) (List.forall_mem_nil _)

theorem schematic_attributes (as : List AttributeDecl) : ∀ x ∈ as.map (·.toElement), Schematic x :=
  List.forall_mem_map.mpr fun a _ => schematic_attributeDecl a

theorem schematic_content {c : Content} (h : ∀ p ∈ c.particles, Schematic p.toElement) :
    ∀ x ∈ c.toElements, Schematic x := by
  cases c with
  | bare =>
    rw [Content.toElements]
    exact List.forall_mem_nil _
  | typed type =>
    rw [Content.toElements]
    exact List.forall_mem_nil _
  | extended base as =>
    rw [Content.toElements]
    refine List.forall_mem_singleton.mpr (schematic_node [] rfl (by decide) ?_)
    refine List.forall_mem_singleton.mpr (schematic_node [] rfl (by decide) ?_)
    exact List.forall_mem_singleton.mpr (schematic_node ["base"] rfl (by decide) (schematic_attributes as))
  | attributed as =>
    rw [Content.toElements]
    exact List.forall_mem_singleton.mpr (schematic_node [] rfl (by decide) (schematic_attributes as))
  | sequence mixed ps as =>
    have hparticles : ∀ x ∈ ElementDecl.toElements ps, Schematic x := by
      rw [toElements_eq]
      exact List.forall_mem_map.mpr h
    have hsequence : Schematic (node "sequence" [] (ElementDecl.toElements ps)) :=
      schematic_node [] rfl (by decide) hparticles
    have hchildren := List.forall_mem_cons.mpr ⟨hsequence, schematic_attributes as⟩
    rw [Content.toElements]
    refine List.forall_mem_singleton.mpr ?_
    cases mixed with
    | false => exact schematic_node [] rfl (by decide) hchildren
    | true => exact schematic_node ["mixed"] rfl (by decide) hchildren

theorem schematic_toElement {d : ElementDecl} (h : ∀ x ∈ d.content.toElements, Schematic x) :
    Schematic d.toElement := by
  obtain ⟨name, optional, unbounded, content⟩ := d
  have htype : content.typeAttribute.map (·.1) = [] ∨ content.typeAttribute.map (·.1) = ["type"] := by
    cases content with
    | typed type => exact .inr rfl
    | _ => exact .inl rfl
  rw [ElementDecl.toElement]
  refine schematic_node ("name" :: (content.typeAttribute.map (·.1) ++ (occurs optional unbounded).map (·.1)))
    (by simp) ?_ h
  rcases htype with htype | htype <;> rw [htype] <;> cases optional <;> cases unbounded <;> decide

theorem schematic_declaration (s : Summary) : Schematic (declaration s) := by
  induction s using Summary.tree_induction with
  | step s ih =>
    refine schematic_toElement (schematic_content ?_)
    rw [particles_ofSummary, ofSummaries_eq]
    exact List.forall_mem_map.mpr ih

/-! ## The schema as XML -/

def schemaScope : Scope :=
  [("xs", schemaNamespace)]

theorem isName_of_name? {n : String} (h : name? n.toList = some (n, [])) : IsName n :=
  (name?_suffix h).1

theorem isName_vocabulary : ∀ n ∈ vocabulary, IsName n := fun n hn =>
  isName_of_name? ((by decide : ∀ n ∈ vocabulary, name? n.toList = some (n, [])) n hn)

theorem plain_of_mem_keys {a : String × String} (ha : a.1 ∈ keys) (hvalue : isText a.2 = true) : PlainAttribute a := by
  have hkeys : ∀ k ∈ keys, name? k.toList = some (k, []) ∧ ':' ∉ k.toList ∧ k ≠ "xmlns" := by decide
  obtain ⟨hname, hcolon, hxmlns⟩ := hkeys a.1 ha
  exact ⟨isName_of_name? hname, hcolon, hxmlns, List.all_eq_true.mp hvalue⟩

theorem Schematic.faithful {e : Element} (h : Schematic e) : isPrintable e = true → Faithful schemaScope e := by
  induction h with
  | @intro name attributes children hname hkeys hdistinct _ ih =>
    intro hprintable
    obtain ⟨hvalues, hchildren⟩ := (isPrintable_iff _).mp hprintable
    refine .intro ?_ fun c hc => ih c hc (hchildren c hc)
    have hqualified : ∀ n ∈ vocabulary, Scope.isQualifiedName n = true := by decide
    have hbound : ∀ n ∈ vocabulary, Scope.checkPrefix schemaScope n = .ok () := by
      simp only [vocabulary, List.forall_mem_cons]
      exact ⟨rfl, rfl, rfl, rfl, rfl, rfl, rfl, rfl, rfl, List.forall_mem_nil _⟩
    exact kept_of_plain (isName_vocabulary name hname) (hqualified name hname) (hbound name hname)
      (fun a ha => plain_of_mem_keys (hkeys a.1 (List.mem_map_of_mem ha)) (hvalues a ha)) hdistinct

theorem kept_schema : Kept [] "xs:schema" [("xmlns:xs", schemaNamespace)] [] schemaScope where
  isName := isName_of_name? (by decide)
  legible := List.forall_mem_singleton.mpr ⟨isName_of_name? (by decide), List.all_eq_true.mp (by decide)⟩
  follows := Scope.checkTag_eq_ok.mp rfl
  proper := rfl
  renamed := List.forall_mem_nil _
  new := rfl
  unidentified := by decide

theorem faithful_markup {ss : List Summary} (h : ∀ s ∈ ss, isPrintable (declaration s) = true) :
    Faithful [] (markup ss) := by
  refine .intro kept_schema ?_
  rw [toElements_eq, ofSummaries_eq, List.map_map]
  exact List.forall_mem_map.mpr fun s hs => (schematic_declaration s).faithful (h s hs)

/-- **Reading back.** Of summaries that came from documents, the text of their schema is read as the schema that
was built, names, attributes, children and declarations of namespaces alike: only white space comes in between. -/
theorem render_reread (ss : List Summary) (h : ∀ s ∈ ss, s.FromDocuments) (hdepth : (markup ss).height ≤ 256) :
    ∃ text e, build ss = .ok (markup ss) ∧ render ss = .ok text ∧ readText text = .ok e ∧
      e.withoutBlanks = markup ss := by
  have hdeclarations : ∀ s ∈ ss, isPrintable (declaration s) = true := fun s hs => (h s hs).representable.isPrintable
  have hprintable := isPrintable_markup_of hdeclarations
  have hbuild : build ss = .ok (markup ss) := if_pos hprintable
  obtain ⟨text, htext⟩ : ∃ text, Xml.print (markup ss) = .ok text := ⟨_, if_pos hprintable⟩
  obtain ⟨e, hread, hback⟩ := exists_readText_print (faithful_markup hdeclarations) htext hdepth
  exact ⟨text, e, hbuild, by rw [render, hbuild]; exact htext, hread, hback⟩

def quotes : String :=
  "<a k='\"&amp;'/>"

def breaks : String :=
  "<a k='&#9;&#10;&lt;'/>"

theorem render_reread_quotes :
    ∃ a b text e, readText quotes = .ok a ∧ readText breaks = .ok b ∧
      render (Summary.ofDocuments [a, b]) = .ok text ∧ readText text = .ok e ∧
      e.withoutBlanks = markup (Summary.ofDocuments [a, b]) := by
  have hheight : (do
      let a ← readText quotes
      let b ← readText breaks
      pure (markup (Summary.ofDocuments [a, b])).height) = .ok 7 := by
    decide +kernel
  obtain ⟨a, ha, hheight⟩ := Outcome.bind_eq_ok.mp hheight
  obtain ⟨b, hb, hheight⟩ := Outcome.bind_eq_ok.mp hheight
  have hroots : ∀ r ∈ [a, b], r.FromDocument := by
    simp only [List.forall_mem_cons]
    exact ⟨.text ha, .text hb, List.forall_mem_nil _⟩
  have hdepth : (markup (Summary.ofDocuments [a, b])).height ≤ 256 := by
    rw [Except.ok.inj hheight]
    decide
  obtain ⟨text, e, -, htext, he, hback⟩ := render_reread _ (fun s hs => .ofDocuments hroots hs) hdepth
  exact ⟨a, b, text, e, ha, hb, htext, he, hback⟩

end Schema

end XmlShape
