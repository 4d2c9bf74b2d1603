import XmlShape.Proofs.Qualified
import XmlShape.Proofs.Rebuilding
import XmlShape.Xml.Document

/-! # Reading what was printed

An element whose tags follow the rules of names, and that holds no text, is read back from its printed document.
What is read has text of its own, but only the white space between the lines (`exists_readText_print`). -/

namespace XmlShape

open Xml

mutual
def Element.withoutBlanks : Element → Element
  | ⟨name, attributes, children, text, namespaces⟩ =>
    ⟨name, attributes, Element.withoutBlanksAll children, if Text.isBlankText text then "" else text, namespaces⟩

def Element.withoutBlanksAll : List Element → List Element
  | [] => []
  | e :: es => e.withoutBlanks :: Element.withoutBlanksAll es
end

namespace Xml

/-! ## Tags that are read back -/

/-- A tag with these declarations and attributes is read back as it was, and makes the scope `inner`. -/
structure Kept (outer : Scope) (name : String) (namespaces attributes : List (String × String)) (inner : Scope) :
    Prop where
  isName : IsName name
  legible : ∀ a ∈ namespaces ++ attributes, IsName a.1 ∧ Legible a.2.toList
  follows : Scope.Follows outer name (namespaces ++ attributes) inner
  proper : properAttributes (namespaces ++ attributes) = attributes
  renamed : ∀ a ∈ attributes, inner.attributeName a.1 = a.1
  new : outer.newDeclarations (Scope.declarations (namespaces ++ attributes)) = namespaces
  unidentified : ∀ a ∈ namespaces ++ attributes, a.1 ≠ "xml:id"

inductive Faithful : Scope → Element → Prop
  | intro {outer inner : Scope} {name : String} {attributes namespaces : List (String × String)}
      {children : List Element} : Kept outer name namespaces attributes inner →
      (∀ c ∈ children, Faithful inner c) → Faithful outer ⟨name, attributes, children, "", namespaces⟩

structure PlainAttribute (a : String × String) : Prop where
  isName : IsName a.1
  colonless : ':' ∉ a.1.toList
  ne_xmlns : a.1 ≠ "xmlns"
  legible : Legible a.2.toList

/-- A tag without declarations is read back if its attributes are plain and the prefix of its name is bound. -/
theorem kept_of_plain {scope : Scope} {name : String} {attributes : List (String × String)} (hname : IsName name)
    (hqualified : Scope.isQualifiedName name = true) (hbound : Scope.checkPrefix scope name = .ok ())
    (hplain : ∀ a ∈ attributes, PlainAttribute a) (hdistinct : (attributes.map (·.1)).Nodup) :
    Kept scope name [] attributes scope := by
  have hproper : properAttributes attributes = attributes := List.filter_eq_self.mpr fun a ha => by
    simp [Scope.isNamespaceDeclaration_of_not_mem (hplain a ha).colonless (hplain a ha).ne_xmlns]
  have hdeclared : ∀ a ∈ attributes, Scope.declaredPrefix? a.1 = none := fun a ha =>
    Scope.declaredPrefix?_of_not_mem (hplain a ha).colonless (hplain a ha).ne_xmlns
  have hnone : Scope.declarations attributes = [] :=
    List.filterMap_eq_nil_iff.mpr fun a ha => by rw [hdeclared a ha]
  have hexpanded : (attributes.map fun a => Scope.expandedName scope a.1) = attributes.map (·.1) :=
    List.map_congr_left fun a ha => Scope.expandedName_of_not_mem (hplain a ha).colonless scope
  refine
    { isName := hname
      legible := fun a ha => ⟨(hplain a ha).isName, (hplain a ha).legible⟩
      follows :=
        { qualified := List.forall_mem_cons.mpr ⟨hqualified, List.forall_mem_map.mpr fun a ha =>
            Scope.isQualifiedName_of_not_mem (hplain a ha).colonless⟩
          distinct := hdistinct
          declared := fun a ha p hp => by simp [hdeclared a ha] at hp
          scope := by simp [hnone, Scope.extend]
          bound := ?_
          unlike := ?_ }
      proper := hproper
      renamed := fun a ha => Scope.attributeName_of_not_mem (hplain a ha).colonless scope
      new := by simp [hnone, Scope.newDeclarations]
      unidentified := fun a ha hid => (hplain a ha).colonless (by rw [hid]; decide) }
  · rw [List.nil_append, hproper]
    exact List.forall_mem_cons.mpr ⟨hbound, List.forall_mem_map.mpr fun a ha =>
      Scope.checkPrefix_of_not_mem (hplain a ha).colonless scope⟩
  · rw [List.nil_append, hproper, hexpanded]
    exact hdistinct

/-! ## Characters -/

def isSteady (c : Char) : Bool :=
  isChar c && c != '\r'

theorem isSteady_of_isNameChar {c : Char} (h : isNameChar c = true) : isSteady c = true := by
  have hreturn : c ≠ '\r' := by
    rintro rfl
    exact absurd h (by decide)
  simp [isSteady, isChar_of_isNameChar h, hreturn]

theorem joinLineEnds_of_steady : ∀ (cs done : List Char), (∀ c ∈ cs, isSteady c = true) →
    joinLineEnds done cs = done.reverse ++ cs
  | [], done, _ => by simp [joinLineEnds]
  | c :: cs, done, h => by
    obtain ⟨hc, hcs⟩ := List.forall_mem_cons.mp h
    have hreturn : c ≠ '\r' := by simpa using (Bool.and_eq_true_iff.mp hc).2
    rw [joinLineEnds, joinLineEnds_of_steady cs (c :: done) hcs]
    · simp
    · exact fun _ heq => absurd heq hreturn
    · exact hreturn

theorem normalize_of_steady {cs : List Char} (h : ∀ c ∈ cs, isSteady c = true) : normalize cs = .ok cs := by
  have hall : cs.all isChar = true := List.all_eq_true.mpr fun c hc => (Bool.and_eq_true_iff.mp (h c hc)).1
  rw [normalize, if_pos hall, joinLineEnds_of_steady cs [] h]
  rfl

theorem steady_lineBreak (level : Nat) : ∀ c ∈ lineBreak level, isSteady c = true := fun c hc => by
  rcases lineBreak_blank level c hc with rfl | rfl <;> decide

section
variable {attributes : List (String × String)} (h : ∀ a ∈ attributes, IsName a.1 ∧ Legible a.2.toList)
include h

theorem enclosed_written : ∀ a ∈ written attributes, Enclosed a := by
  intro a ha
  obtain ⟨b, hb, rfl⟩ := List.mem_map.mp ha
  refine ⟨(h b hb).1, fun hmem => ?_, fun hmem => ?_⟩
  · obtain ⟨c, -, hd⟩ := List.mem_flatMap.mp hmem
    exact (escapeChar_clean hd).1 rfl
  · obtain ⟨c, -, hd⟩ := List.mem_flatMap.mp hmem
    exact (escapeChar_clean hd).2.1 rfl

theorem steady_written : ∀ a ∈ written attributes, ∀ c ∈ attributeChars a, isSteady c = true := by
  intro a ha c hc
  obtain ⟨b, hb, rfl⟩ := List.mem_map.mp ha
  obtain ⟨hname, hvalue⟩ := h b hb
  simp only [attributeChars, List.cons_append, List.mem_cons, List.mem_append, List.not_mem_nil, or_false] at hc
  rcases hc with rfl | (hc | rfl | rfl | hc) | rfl
  · decide
  · exact isSteady_of_isNameChar (hname.all c hc)
  · decide
  · decide
  · obtain ⟨d, hd, hc⟩ := List.mem_flatMap.mp hc
    obtain ⟨-, -, hreturn, hchar⟩ := escapeChar_clean hc
    simp [isSteady, hchar (hvalue d hd), hreturn]
  · decide

end

/-! ## Lines -/

theorem forall_tagLinesAll {P : Line → Prop} {es : List Element} (level : Nat)
    (h : ∀ e ∈ es, ∀ l ∈ tagLines level e, P l) : ∀ l ∈ tagLinesAll level es, P l := by
  induction es with
  | nil =>
    rw [tagLinesAll]
    exact List.forall_mem_nil _
  | cons e es ih =>
    obtain ⟨he, hes⟩ := List.forall_mem_cons.mp h
    rw [tagLinesAll]
    exact List.forall_mem_append.mpr ⟨he, ih hes⟩

structure Token.Steady (t : Token) : Prop where
  isTag : t.IsTag
  chars : ∀ c ∈ t.print, isSteady c = true

section
variable {outer inner : Scope} {name : String} {namespaces attributes : List (String × String)}
  (h : Kept outer name namespaces attributes inner)
include h

theorem Kept.opening (isEmpty : Bool) : (Token.opening name (written (namespaces ++ attributes)) isEmpty).Steady := by
  refine ⟨⟨h.isName, enclosed_written h.legible⟩, fun c hc => ?_⟩
  rcases List.mem_cons.mp hc with rfl | hc
  · decide
  rcases List.mem_append.mp hc with hc | hc
  · exact isSteady_of_isNameChar (h.isName.all c hc)
  rcases List.mem_append.mp hc with hc | hc
  · obtain ⟨a, ha, hc⟩ := List.mem_flatMap.mp hc
    exact steady_written h.legible a ha c hc
  · have hend : (Token.tagEnd isEmpty).all isSteady = true := by
      cases isEmpty <;> decide
    exact List.all_eq_true.mp hend c hc

theorem Kept.closing : (Token.closing name).Steady := by
  refine ⟨h.isName, fun c hc => ?_⟩
  rcases List.mem_cons.mp hc with rfl | hc
  · decide
  rcases List.mem_cons.mp hc with rfl | hc
  · decide
  rcases List.mem_append.mp hc with hc | hc
  · exact isSteady_of_isNameChar (h.isName.all c hc)
  · rw [List.mem_singleton.mp hc]
    decide

end

theorem Faithful.tagLines {scope : Scope} {e : Element} (h : Faithful scope e) :
    ∀ (level : Nat), ∀ l ∈ tagLines level e, l.2.Steady := by
  induction h with
  | @intro outer inner name attributes namespaces children htag _ ih =>
    intro level
    rw [Xml.tagLines]
    split
    · exact List.forall_mem_singleton.mpr (htag.opening true)
    · refine List.forall_mem_cons.mpr ⟨htag.opening false, List.forall_mem_append.mpr ⟨?_, ?_⟩⟩
      · exact forall_tagLinesAll (level + 1) fun c hc => ih c hc (level + 1)
      · exact List.forall_mem_singleton.mpr htag.closing

/-! ## Nodes -/

theorem forall_toContent {P : Node → Prop} {level : Nat} {es : List Element} (hblank : P (Element.blankNode level))
    (h : ∀ e ∈ es, P (e.toNode level)) : ∀ n ∈ Element.toContent level es, P n := by
  induction es with
  | nil =>
    rw [Element.toContent]
    exact List.forall_mem_nil _
  | cons e es ih =>
    obtain ⟨he, hes⟩ := List.forall_mem_cons.mp h
    rw [Element.toContent]
    exact List.forall_mem_cons.mpr ⟨hblank, List.forall_mem_cons.mpr ⟨he, ih hes⟩⟩

def Element.content (level : Nat) (children : List Element) : List Node :=
  if children.isEmpty then [] else Element.toContent (level + 1) children ++ [Element.blankNode level]

theorem forall_content {P : Node → Prop} {es : List Element} (hblank : ∀ level, P (Element.blankNode level))
    (h : ∀ e ∈ es, ∀ level, P (e.toNode level)) (level : Nat) : ∀ n ∈ Element.content level es, P n := by
  rw [Element.content]
  split
  · exact List.forall_mem_nil _
  · refine List.forall_mem_append.mpr ⟨forall_toContent (hblank _) fun e he => h e he _, ?_⟩
    exact List.forall_mem_singleton.mpr (hblank level)

theorem toNode_eq (level : Nat) (name : String) (attributes : List (String × String)) (children : List Element)
    (text : String) (namespaces : List (String × String)) :
    Element.toNode level ⟨name, attributes, children, text, namespaces⟩ =
      .element name (namespaces ++ attributes) (Element.content level children) := by
  rw [Element.toNode]
  rfl

namespace Node

theorem checkNamesAll_eq_ok {scope : Scope} {ns : List Node} :
    checkNamesAll scope ns = .ok () ↔ ∀ n ∈ ns, n.checkNames scope = .ok () := by
  induction ns with
  | nil => simp [checkNamesAll, pure, Except.pure]
  | cons n ns ih => rw [checkNamesAll, Outcome.check_bind_eq_ok, List.forall_mem_cons, ih]

theorem referencesAll_eq_nil {scope : Scope} {ns : List Node} (h : ∀ n ∈ ns, n.references scope = []) :
    referencesAll scope ns = [] := by
  induction ns with
  | nil => rw [referencesAll]
  | cons n ns ih =>
    obtain ⟨hn, hns⟩ := List.forall_mem_cons.mp h
    rw [referencesAll, hn, ih hns]
    rfl

theorem identifiersAll_eq_nil {s : Subset} {ns : List Node} (h : ∀ n ∈ ns, n.identifiers s = []) :
    identifiersAll s ns = [] := by
  induction ns with
  | nil => rw [identifiersAll]
  | cons n ns ih =>
    obtain ⟨hn, hns⟩ := List.forall_mem_cons.mp h
    rw [identifiersAll, hn, ih hns]
    rfl

end Node

namespace Faithful

variable {scope : Scope} {e : Element}

theorem checkNames (h : Faithful scope e) : ∀ level : Nat, (e.toNode level).checkNames scope = .ok () := by
  induction h with
  | @intro outer inner name attributes namespaces children htag _ ih =>
    intro level
    rw [toNode_eq, Node.checkNames]
    refine Outcome.bind_eq_ok.mpr ⟨inner, Scope.checkTag_eq_ok.mpr htag.follows, Node.checkNamesAll_eq_ok.mpr ?_⟩
    exact forall_content (fun _ => rfl) ih level

theorem references (h : Faithful scope e) :
    ∀ (level : Nat) (outer : Scope), (e.toNode level).references outer = [] := by
  induction h with
  | @intro outer inner name attributes namespaces children htag _ ih =>
    intro level outer
    rw [toNode_eq, Node.references]
    exact Node.referencesAll_eq_nil (forall_content (fun _ => rfl) (fun c hc level => ih c hc level _) level)

theorem identifiers (h : Faithful scope e) : ∀ level : Nat, (e.toNode level).identifiers Subset.empty = [] := by
  induction h with
  | @intro outer inner name attributes namespaces children htag _ ih =>
    intro level
    have hown : (namespaces ++ attributes).filter (fun a => Node.identifies Subset.empty name a.1) = [] := by
      refine List.filter_eq_nil_iff.mpr fun a ha => ?_
      simpa [Node.identifies, Subset.rule?, Subset.empty] using htag.unidentified a ha
    rw [toNode_eq, Node.identifiers, hown, Node.identifiersAll_eq_nil (forall_content (fun _ => rfl) ih level)]
    rfl

theorem check (h : Faithful [] e) (level : Nat) : (e.toNode level).check Subset.empty = .ok () := by
  refine Outcome.check_bind_eq_ok.mpr ⟨h.checkNames level, Outcome.check_bind_eq_ok.mpr ⟨?_, ?_⟩⟩
  · rw [Node.checkEntities, h.references]
    rfl
  · rw [Node.checkIdentifiers, h.identifiers]
    rfl

end Faithful

/-! ## Elements -/

theorem elements_append (scope : Scope) (ns ms : List Node) :
    Node.elements scope (ns ++ ms) = Node.elements scope ns ++ Node.elements scope ms := by
  simp only [Node.elements_eq, List.filterMap_append]

def ReadBack (scope : Scope) (e : Element) : Prop :=
  ∀ level : Nat, ∃ found, (e.toNode level).element? scope = some found ∧ found.withoutBlanks = e

theorem elements_toContent {scope : Scope} {es : List Element} (level : Nat) (h : ∀ e ∈ es, ReadBack scope e) :
    Element.withoutBlanksAll (Node.elements scope (Element.toContent level es)) = es := by
  induction es with
  | nil => rw [Element.toContent, Node.elements, Element.withoutBlanksAll]
  | cons e es ih =>
    obtain ⟨he, hes⟩ := List.forall_mem_cons.mp h
    obtain ⟨found, hfound, hback⟩ := he level
    have hblank : (Element.blankNode level).element? scope = none := rfl
    rw [Element.toContent, Node.elements, Node.elements, hblank, hfound]
    change Element.withoutBlanksAll (found :: Node.elements scope (Element.toContent level es)) = e :: es
    rw [Element.withoutBlanksAll, hback, ih hes]

theorem elements_content {scope : Scope} {es : List Element} (level : Nat) (h : ∀ e ∈ es, ReadBack scope e) :
    Element.withoutBlanksAll (Node.elements scope (Element.content level es)) = es := by
  rw [Element.content]
  split
  · rename_i hes
    rw [List.isEmpty_iff.mp hes, Node.elements, Element.withoutBlanksAll]
  · have hlast : Node.elements scope [Element.blankNode level] = [] := rfl
    rw [elements_append, hlast, List.append_nil, elements_toContent _ h]

/-- Of text there are only line breaks. -/
theorem isBlankText_directText {ns : List Node}
    (h : ∀ n ∈ ns, ∀ s, n = .text s → ∀ c ∈ s.toList, c = '\n' ∨ c = ' ') :
    Text.isBlankText (Node.directText ns) = true := by
  refine List.all_eq_true.mpr fun c hc => ?_
  rw [Node.directText, String.toList_join] at hc
  obtain ⟨s, hs, hc⟩ := List.mem_flatMap.mp hc
  obtain ⟨n, hn, htext⟩ := List.mem_filterMap.mp hs
  split at htext
  · cases htext
    rcases h _ hn _ rfl c hc with rfl | rfl <;> decide
  · cases htext

theorem isBlankText_content (level : Nat) (es : List Element) :
    Text.isBlankText (Node.directText (Element.content level es)) = true := by
  refine isBlankText_directText (forall_content (fun level s hs => ?_) (fun e _ level s hs => ?_) level)
  · rw [Element.blankNode, Node.text.injEq] at hs
    rw [← hs, String.toList_ofList]
    exact lineBreak_blank level
  · cases e
    rw [toNode_eq] at hs
    cases hs

theorem Faithful.readBack {scope : Scope} {e : Element} (h : Faithful scope e) : ReadBack scope e := by
  induction h with
  | @intro outer inner name attributes namespaces children htag _ ih =>
    intro level
    have hscope : outer.extend (Scope.declarations (namespaces ++ attributes)) = inner := htag.follows.scope.symm
    have hattributes : (attributes.map fun a => (inner.attributeName a.1, a.2)) = attributes :=
      (List.map_congr_left fun a ha => congrArg (·, a.2) (htag.renamed a ha)).trans (List.map_id attributes)
    refine ⟨_, by rw [toNode_eq, Node.element?], ?_⟩
    simp only [hscope, htag.proper, htag.new, hattributes, Element.withoutBlanks, elements_content level ih,
      isBlankText_content, if_true]

/-! ## Documents -/

theorem Declaration.read_declaration (rest : List Char) :
    Declaration.read (declaration.toList ++ rest) = .ok (⟨"1.0", some "UTF-8", false⟩, rest) :=
  rfl

section
variable {root : Element} {text : String} (h : Faithful [] root) (hprint : print root = .ok text)
include h hprint

theorem steady_print : ∀ c ∈ text.toList, isSteady c = true := by
  rw [toList_print hprint]
  refine List.forall_mem_append.mpr ⟨List.all_eq_true.mp (by decide), List.forall_mem_append.mpr ⟨fun c hc => ?_, ?_⟩⟩
  · obtain ⟨l, hl, hc⟩ := List.mem_flatMap.mp hc
    exact (List.mem_append.mp hc).elim (steady_lineBreak l.1 c) ((h.tagLines 0 l hl).chars c)
  · exact List.all_eq_true.mp (by decide)

theorem readTree_print (hdepth : root.height ≤ Builder.maxDepth) :
    readTree text.toList = .ok (Subset.empty, root.toNode 0) := by
  -- the stages of reading: line ends, XML declaration, tokens, tree, rules of names
  refine Outcome.bind_eq_ok.mpr ⟨_, normalize_of_steady (steady_print h hprint), ?_⟩
  rw [toList_print hprint]
  refine Outcome.bind_eq_ok.mpr ⟨_, Declaration.read_declaration _, ?_⟩
  refine Outcome.bind_eq_ok.mpr ⟨_, Token.read_lines fun l hl => (h.tagLines 0 l hl).isTag, ?_⟩
  refine Outcome.bind_eq_ok.mpr ⟨_, ofTokens_tagLines hdepth false, ?_⟩
  exact Outcome.check_bind_eq_ok.mpr ⟨h.check 0, rfl⟩

/-- **A printed document is read back.** -/
theorem exists_readText_print (hdepth : root.height ≤ Builder.maxDepth) :
    ∃ e, readText text = .ok e ∧ e.withoutBlanks = root := by
  obtain ⟨e, he, hback⟩ := h.readBack 0
  refine ⟨e, ?_, hback⟩
  obtain ⟨cs, hcs⟩ : ∃ cs, text.toList = '<' :: cs := ⟨_, toList_print hprint⟩
  have hblank : Text.isBlankText text = false := by
    rw [Text.isBlankText, hcs]
    rfl
  have hmark : withoutMark text.toList = text.toList := by
    rw [hcs]
    rfl
  have hroot : readRoot text.toList = .ok e := by
    refine Outcome.bind_eq_ok.mpr ⟨_, readTree_print h hprint hdepth, ?_⟩
    simp only [he]
    rfl
  rw [readText, hblank, hmark, hroot]
  rfl

end

end Xml

end XmlShape
