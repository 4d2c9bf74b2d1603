import XmlShape.Proofs.Qualified
import XmlShape.Proofs.Reading

/-! # From the start tags of a document to its elements

Every start tag becomes an element, in document order, and its attributes that declare no namespace become those
of the element. The element has the name that is written; an attribute may get another prefix of its namespace,
and it does exactly where its own one is overruled (`namesKept_of_read`). -/

namespace XmlShape

structure StartTag where
  name : String
  attributes : List String
deriving DecidableEq

def StartTag.proper (t : StartTag) : StartTag :=
  ⟨t.name, t.attributes.filter fun n => !isNamespaceDeclaration n⟩

namespace Element

mutual
def startTags : Element → List StartTag
  | ⟨name, attributes, children, _, _⟩ => ⟨name, attributes.map (·.1)⟩ :: startTagsAll children

def startTagsAll : List Element → List StartTag
  | [] => []
  | e :: es => e.startTags ++ startTagsAll es
end

theorem startTagsAll_append : ∀ es fs : List Element, startTagsAll (es ++ fs) = startTagsAll es ++ startTagsAll fs
  | [], fs => rfl
  | e :: es, fs => by simp [startTagsAll, startTagsAll_append es fs]

end Element

namespace Xml

/-! ## Tags with their default attributes -/

def Subset.defaulted (s : Subset) (element : String) (written : List String) : List String :=
  s.rules.filterMap fun r =>
    if r.element == element && !written.contains r.name then r.value.map fun _ => r.name else none

theorem Subset.map_name_attributes {s : Subset} {element : String} {written : List (String × List Char)}
    {as : List (String × String)} (h : s.attributes element written = .ok as) :
    as.map (·.1) = written.map (·.1) ++ s.defaulted element (written.map (·.1)) := by
  unfold Subset.attributes at h
  obtain ⟨given, hgiven, h⟩ := Outcome.bind_eq_ok.mp h
  cases h
  have hsame : List.Forall₂ (fun a b => a.1 = b.1) written given :=
    (Outcome.forall₂_of_mapM_eq_ok hgiven).imp fun a b hab => by
      obtain ⟨value, -, hab⟩ := Outcome.bind_eq_ok.mp hab
      exact congrArg Prod.fst (Except.ok.inj hab)
  have hnames : written.map (·.1) = given.map (·.1) := by
    rw [← List.forall₂_eq_eq_eq, List.forall₂_map_left_iff, List.forall₂_map_right_iff]
    exact hsame
  rw [List.map_append, ← hnames, Subset.defaulted, List.map_filterMap]
  refine congrArg (_ ++ ·) (List.filterMap_congr fun r _ => ?_)
  have hwritten : (written.any fun a => a.1 == r.name) = (written.map (·.1)).contains r.name := by
    rw [List.contains_eq_any_beq, List.any_map]
    exact congrArg written.any (funext fun a => Bool.beq_comm)
  rw [hwritten]
  split
  · cases r.value <;> rfl
  · rfl

def Token.startTags (s : Subset) : Token → List StartTag
  | opening name written _ => [⟨name, written.map (·.1) ++ s.defaulted name (written.map (·.1))⟩]
  | _ => []

/-- Whether a token is a start tag does not depend on what is declared. -/
theorem Token.startTags_eq_nil {s s' : Subset} {t : Token} (h : t.startTags s = []) : t.startTags s' = [] := by
  cases t with
  | opening => cases h
  | _ => rfl

/-! ## Trees -/

mutual
def Node.placed (outer : Scope) : Node → List (Scope × StartTag)
  | .element name attributes content =>
    let inner := outer.extend (Scope.declarations attributes)
    (inner, ⟨name, attributes.map (·.1)⟩) :: Node.placedAll inner content
  | _ => []

def Node.placedAll (outer : Scope) : List Node → List (Scope × StartTag)
  | [] => []
  | n :: ns => n.placed outer ++ Node.placedAll outer ns
end

mutual
def Node.startTags : Node → List StartTag
  | .element name attributes content => ⟨name, attributes.map (·.1)⟩ :: Node.startTagsAll content
  | _ => []

def Node.startTagsAll : List Node → List StartTag
  | [] => []
  | n :: ns => n.startTags ++ Node.startTagsAll ns
end

theorem Node.startTagsAll_append : ∀ ns ms : List Node,
    startTagsAll (ns ++ ms) = startTagsAll ns ++ startTagsAll ms
  | [], ms => rfl
  | n :: ns, ms => by simp [startTagsAll, startTagsAll_append ns ms]

mutual
theorem Node.map_snd_placed (outer : Scope) : ∀ n : Node, (n.placed outer).map (·.2) = n.startTags
  | .element name attributes content => by
    rw [placed, startTags, List.map_cons, Node.map_snd_placedAll]
  | .text _ => rfl
  | .comment _ => rfl
  | .instruction _ _ => rfl
  | .entity _ => rfl

theorem Node.map_snd_placedAll (outer : Scope) : ∀ ns : List Node,
    (Node.placedAll outer ns).map (·.2) = Node.startTagsAll ns
  | [] => rfl
  | n :: ns => by
    rw [placedAll, startTagsAll, List.map_append, Node.map_snd_placed, Node.map_snd_placedAll]
end

namespace Builder

def startTags (b : Builder) : List StartTag :=
  Node.startTagsAll b.root.toList ++
    b.frames.reverse.flatMap fun f => ⟨f.name, f.attributes.map (·.1)⟩ :: Node.startTagsAll f.content.reverse

section
variable {b c : Builder}

theorem startTags_charge {texts : List (List Char)} (h : b.charge texts = .ok c) :
    c.startTags = b.startTags ∧ c.subsetInEffect = b.subsetInEffect := by
  obtain ⟨n, rfl⟩ := charge_eq h
  exact ⟨rfl, rfl⟩

theorem startTags_addNode {n : Node} (h : b.addNode n = .ok c) :
    c.startTags = b.startTags ++ n.startTags ∧ c.subsetInEffect = b.subsetInEffect := by
  unfold addNode at h
  split at h
  · rename_i f fs n hframes
    cases h
    simp [startTags, hframes, Node.startTagsAll_append, Node.startTagsAll, subsetInEffect]
  · cases h
    simp [Node.startTags]
  · cases h
    simp [Node.startTags]
  · rename_i hframes _ _
    split at h
    · cases h
    · rename_i hroot
      cases h
      have hnone : b.root = none := by simpa using hroot
      simp [startTags, hframes, hnone, Node.startTagsAll, subsetInEffect]

theorem startTags_openElement {name : String} {written : List (String × List Char)}
    (h : b.openElement name written = .ok c) :
    c.startTags = b.startTags ++
        [⟨name, written.map (·.1) ++ b.subsetInEffect.defaulted name (written.map (·.1))⟩] ∧
      c.subsetInEffect = b.subsetInEffect := by
  simp only [openElement] at h
  split at h
  · cases h
  · split at h
    · cases h
    · obtain ⟨b', hcharge, h⟩ := Outcome.bind_eq_ok.mp h
      obtain ⟨attributes, hattributes, h⟩ := Outcome.bind_eq_ok.mp h
      cases h
      obtain ⟨htags, hsubset⟩ := startTags_charge hcharge
      have hnames := Subset.map_name_attributes hattributes
      rw [hsubset] at hnames
      refine ⟨?_, hsubset⟩
      rw [← htags, ← hnames]
      simp [startTags, Node.startTagsAll]

theorem startTags_closeElement {name : String} (h : b.closeElement name = .ok c) :
    c.startTags = b.startTags ∧ c.subsetInEffect = b.subsetInEffect := by
  unfold closeElement at h
  split at h
  · cases h
  · rename_i f fs hframes
    split at h
    · obtain ⟨htags, hsubset⟩ := startTags_addNode h
      refine ⟨?_, hsubset⟩
      rw [htags]
      simp [startTags, hframes, Node.startTags]
    · cases h

theorem startTags_addText (pending : List Char) (done : List Node) :
    Node.startTagsAll (addText pending done).reverse = Node.startTagsAll done.reverse := by
  unfold addText
  split
  · rfl
  · simp [Node.startTagsAll_append, Node.startTagsAll, Node.startTags]

theorem startTags_addSymbols {es : Entities} {symbols : List Symbol} {pending : List Char} {done found : List Node}
    (h : addSymbols es pending done symbols = .ok found) :
    Node.startTagsAll found.reverse = Node.startTagsAll done.reverse := by
  have hentity : ∀ (name : String) (pending : List Char) (done : List Node),
      Node.startTagsAll (.entity name :: addText pending done).reverse = Node.startTagsAll done.reverse := by
    intro name pending done
    rw [List.reverse_cons, Node.startTagsAll_append, startTags_addText]
    exact List.append_nil _
  fun_induction addSymbols es pending done symbols with
  | case1 pending done =>
    cases h
    exact startTags_addText pending done
  | case2 pending done c ss ih => exact ih h
  | case3 pending done c ss ih => exact ih h
  | case4 pending done name ss c hc ih => exact ih h
  | case5 => cases h
  | case6 pending done name ss _ value _ _ ih => exact (ih h).trans (hentity ..)
  | case7 pending done name ss _ _ _ ih => exact (ih h).trans (hentity ..)
  | case8 => cases h

theorem startTags_addContent {cs : List Char} (h : b.addContent cs = .ok c) :
    c.startTags = b.startTags ∧ c.subsetInEffect = b.subsetInEffect := by
  unfold addContent at h
  split at h
  · split at h
    · cases h
      exact ⟨rfl, rfl⟩
    · cases h
  · rename_i f fs hframes
    split at h
    · cases h
    · obtain ⟨symbols, -, h⟩ := Outcome.bind_eq_ok.mp h
      obtain ⟨b', hcharge, h⟩ := Outcome.bind_eq_ok.mp h
      obtain ⟨content, hcontent, h⟩ := Outcome.bind_eq_ok.mp h
      cases h
      obtain ⟨n, rfl⟩ := charge_eq hcharge
      refine ⟨?_, rfl⟩
      simp [startTags, hframes, startTags_addSymbols hcontent]

/-- A token adds its start tag, if it is one. A document type comes before any. -/
theorem startTags_step {done : List Token} {t : Token}
    (hb : b.startTags = done.flatMap (Token.startTags b.subsetInEffect)) (h : b.step t = .ok c) :
    c.startTags = (done ++ [t]).flatMap (Token.startTags c.subsetInEffect) := by
  have hadd : ∀ {tags : List StartTag}, c.startTags = b.startTags ++ tags ∧ c.subsetInEffect = b.subsetInEffect →
      t.startTags b.subsetInEffect = tags →
      c.startTags = (done ++ [t]).flatMap (Token.startTags c.subsetInEffect) := by
    rintro tags ⟨htags, hsubset⟩ rfl
    rw [htags, hsubset, hb]
    simp
  have hkeep : c.startTags = b.startTags ∧ c.subsetInEffect = b.subsetInEffect →
      t.startTags b.subsetInEffect = [] →
      c.startTags = (done ++ [t]).flatMap (Token.startTags c.subsetInEffect) := fun hkept =>
    hadd ⟨hkept.1.trans (List.append_nil _).symm, hkept.2⟩
  cases t with
  | text cs => exact hkeep (startTags_addContent h) rfl
  | cdata cs =>
    simp only [step] at h
    split at h
    · cases h
    · exact hadd (startTags_addNode h) rfl
  | comment cs => exact hadd (startTags_addNode h) rfl
  | instruction target cs => exact hadd (startTags_addNode h) rfl
  | opening name attributes isEmpty =>
    obtain ⟨b', hopen, h⟩ := Outcome.bind_eq_ok.mp h
    have hopened := startTags_openElement hopen
    split at h
    · obtain ⟨htags, hsubset⟩ := startTags_closeElement h
      exact hadd ⟨htags.trans hopened.1, hsubset.trans hopened.2⟩ rfl
    · cases h
      exact hadd hopened rfl
  | closing name => exact hkeep (startTags_closeElement h) rfl
  | doctype d =>
    simp only [step] at h
    split at h
    · rename_i hfirst
      obtain ⟨s, -, h⟩ := Outcome.bind_eq_ok.mp h
      cases h
      simp only [Bool.and_eq_true, List.isEmpty_iff, Option.isNone_iff_eq_none] at hfirst
      obtain ⟨⟨hframes, hroot⟩, -⟩ := hfirst
      -- there are no tags yet that the new defaults could have changed
      have hnone : b.startTags = [] := by
        simp [startTags, hframes, hroot, Node.startTagsAll]
      rw [hb, List.flatMap_eq_nil_iff] at hnone
      rw [List.flatMap_append, List.flatMap_eq_nil_iff.mpr fun t ht => Token.startTags_eq_nil (hnone t ht)]
      simp [startTags, hframes, hroot, Node.startTagsAll, Token.startTags]
    · cases h

end

end Builder

/-- **Every start tag is a node's, in document order.** -/
theorem Node.startTags_ofTokens {standalone : Bool} {tokens : List Token} {s : Subset} {root : Node}
    (h : Node.ofTokens standalone tokens = .ok (s, root)) :
    root.startTags = tokens.flatMap (Token.startTags s) := by
  unfold Node.ofTokens at h
  obtain ⟨b, hb, h⟩ := Outcome.bind_eq_ok.mp h
  have hstart : (Builder.start standalone).startTags =
      [].flatMap (Token.startTags (Builder.start standalone).subsetInEffect) := rfl
  have hb := Outcome.foldlM_preserves_after
    (P := fun done b => b.startTags = done.flatMap (Token.startTags b.subsetInEffect))
    (fun done t b c hb h => Builder.startTags_step hb h) hstart hb
  split at h
  · cases h
  · cases h
  · rename_i hframes hroot
    cases h
    simpa [Builder.startTags, hframes, hroot, Node.startTagsAll] using hb

/-! ## Elements -/

/-- What becomes of a start tag in this scope. The name stays, and so do the attributes up to the choice of
a prefix; where no later declaration overrules their own, they keep that. -/
structure Becomes (scope : Scope) (written found : StartTag) : Prop where
  name : found.name = written.name
  attributes : List.Forall₂
    (fun w n => scope.expandedName n = scope.expandedName w ∧
      (n = w ↔ scope.overruled (Scope.splitName w).1 = false))
    written.proper.attributes found.attributes

mutual
theorem Node.becomes_placed {outer : Scope} (houter : outer.Wellformed) : ∀ {n : Node},
    n.checkNames outer = .ok () →
    List.Forall₂ (fun p t => Becomes p.1 p.2 t) (n.placed outer) (Element.startTagsAll (n.element? outer).toList)
  | .element name attributes content, h => by
    rw [checkNames] at h
    obtain ⟨inner, htag, hcontent⟩ := Outcome.bind_eq_ok.mp h
    have hfollows := Scope.checkTag_eq_ok.mp htag
    have hinner := hfollows.wellformed houter
    obtain rfl := hfollows.scope
    rw [placed, element?, Option.toList_some, Element.startTagsAll, Element.startTags, Element.startTagsAll,
      List.append_nil]
    refine .cons ⟨rfl, ?_⟩ (Node.becomes_placedAll hinner hcontent)
    have hproper : (StartTag.mk name (attributes.map (·.1))).proper.attributes =
        (properAttributes attributes).map (·.1) :=
      List.filter_map ..
    rw [hproper, List.map_map, List.forall₂_map_left_iff, List.forall₂_map_right_iff, List.forall₂_same]
    intro a ha
    have hname := hfollows.qualified a.1 (List.mem_cons_of_mem _ (List.mem_map_of_mem (List.mem_filter.mp ha).1))
    have hbound := hfollows.bound a.1 (List.mem_cons_of_mem _ (List.mem_map_of_mem ha))
    exact hinner.attributeName_spec hname hbound
  | .text _, _ => .nil
  | .comment _, _ => .nil
  | .instruction _ _, _ => .nil
  | .entity _, _ => .nil

theorem Node.becomes_placedAll {outer : Scope} (houter : outer.Wellformed) : ∀ {ns : List Node},
    Node.checkNamesAll outer ns = .ok () →
    List.Forall₂ (fun p t => Becomes p.1 p.2 t) (Node.placedAll outer ns)
      (Element.startTagsAll (Node.elements outer ns))
  | [], _ => .nil
  | n :: ns, h => by
    rw [checkNamesAll] at h
    obtain ⟨hn, hns⟩ := Outcome.check_bind_eq_ok.mp h
    rw [placedAll, elements, Element.startTagsAll_append]
    exact List.rel_append (Node.becomes_placed houter hn) (Node.becomes_placedAll houter hns)
end

/-! ## Documents -/

def writtenTags (cs : List Char) : Except SyntaxError (List StartTag) := do
  let (subset, _) ← readTree cs
  let cs ← normalize cs
  let (_, cs) ← Declaration.read cs
  let tokens ← Token.read cs
  pure (tokens.flatMap (Token.startTags subset))

/-- Each start tag of the text has become the element at its place in the order of the document. -/
def NamesKept (cs : List Char) (e : Element) : Prop :=
  ∃ s root, readTree cs = .ok (s, root) ∧ writtenTags cs = .ok ((root.placed []).map (·.2)) ∧
    List.Forall₂ (fun p t => Becomes p.1 p.2 t) (root.placed []) e.startTags

theorem namesKept_of_readRoot {cs : List Char} {e : Element} (h : readRoot cs = .ok e) : NamesKept cs e := by
  obtain ⟨s, root, htree, helement⟩ := exists_tree_of_readRoot h
  obtain ⟨ds, declaration, rest, tokens, hds, hdeclaration, htokens, hn, hcheck⟩ := exists_stages_of_readTree htree
  refine ⟨s, root, htree, ?_, ?_⟩
  · unfold writtenTags
    rw [htree, hds]
    change Declaration.read ds >>= _ = _
    rw [hdeclaration]
    change Token.read rest >>= _ = _
    rw [htokens, Node.map_snd_placed, Node.startTags_ofTokens hn]
    rfl
  · have hplaced := Node.becomes_placed Scope.wellformed_nil (Outcome.check_bind_eq_ok.mp hcheck).1
    simpa [helement, Element.startTagsAll] using hplaced

/-- **Names keep their prefixes, but for attributes whose prefix is overruled.** -/
theorem namesKept_of_read (e : Element) :
    (∀ s, readText s = .ok e → NamesKept (withoutMark s.toList) e) ∧
      (∀ decoders bytes, readBytes decoders bytes = .ok e →
        ∃ cs, Encoding.decode decoders bytes = .ok cs ∧ NamesKept cs e) := by
  constructor
  · intro s h
    exact namesKept_of_readRoot (readRoot_of_readText h)
  · intro decoders bytes h
    obtain ⟨cs, hcs, hroot⟩ := readRoot_of_readBytes h
    exact ⟨cs, hcs, namesKept_of_readRoot hroot⟩

def twoPrefixes : String :=
  "<p:r xmlns:p=\"u\" p:i=\"1\"><q:c xmlns:q=\"u\" q:i=\"2\" p:j=\"3\"/></p:r>"

theorem namesKept_of_read_twoPrefixes :
    ∃ e, readText twoPrefixes = .ok e ∧ e.startTags = [⟨"p:r", ["p:i"]⟩, ⟨"q:c", ["p:i", "p:j"]⟩] ∧
      NamesKept (withoutMark twoPrefixes.toList) e := by
  have hread : (readText twoPrefixes).map Element.startTags = .ok [⟨"p:r", ["p:i"]⟩, ⟨"q:c", ["p:i", "p:j"]⟩] := by
    decide +kernel
  obtain ⟨e, he, htags⟩ := Outcome.map_eq_ok.mp hread
  exact ⟨e, he, htags, (namesKept_of_read e).1 _ he⟩

def doubled : String :=
  "<r xmlns:a=\"u\" xmlns:b=\"u\" a:i=\"1\"/>"

/-- The names of attributes do not all stay as written. -/
theorem not_forall_startTags_eq :
    ¬ ∀ (s : String) (e : Element) (tags : List StartTag), readText s = .ok e →
      writtenTags (withoutMark s.toList) = .ok tags → e.startTags = tags.map StartTag.proper := by
  intro h
  have hread : (readText doubled).map Element.startTags = .ok [⟨"r", ["b:i"]⟩] := by
    decide +kernel
  obtain ⟨e, he, htags⟩ := Outcome.map_eq_ok.mp hread
  have hwritten : writtenTags (withoutMark doubled.toList) = .ok [⟨"r", ["xmlns:a", "xmlns:b", "a:i"]⟩] := by
    decide +kernel
  have hsame := htags.symm.trans (h doubled e _ he hwritten)
  exact absurd hsame (by decide)

end Xml

end XmlShape
