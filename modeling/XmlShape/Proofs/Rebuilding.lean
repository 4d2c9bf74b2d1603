import XmlShape.Proofs.Printing
import XmlShape.Proofs.Reading

/-! # The tree of a printed document

The tags of a printed document build the tree it was printed from, with the white space between the tags as text
(`ofTokens_tagLines`). -/

namespace XmlShape

open Xml

namespace Element

def blankNode (level : Nat) : Node :=
  .text (String.ofList (lineBreak level))

mutual
def toNode (level : Nat) : Element → Node
  | ⟨name, attributes, children, _, namespaces⟩ =>
    .element name (namespaces ++ attributes)
      (if children.isEmpty then [] else toContent (level + 1) children ++ [blankNode level])

def toContent (level : Nat) : List Element → List Node
  | [] => []
  | e :: es => blankNode level :: e.toNode level :: toContent level es
end

end Element

namespace Xml

open Element (blankNode)

/-! ## Texts without markup -/

theorem Symbol.readFrom_raw : ∀ (cs : List Char) {fuel : Nat} (done : List Symbol), '&' ∉ cs → cs.length ≤ fuel →
    readFrom fuel done cs = .ok (done.reverse ++ cs.map raw)
  | [], fuel, done, _, _ => by simp [readFrom]
  | c :: cs, 0, done, _, hfuel => absurd hfuel (Nat.not_succ_le_zero _)
  | c :: cs, fuel + 1, done, h, hfuel => by
    obtain ⟨hc, hcs⟩ := not_or.mp (mt List.mem_cons.mpr h)
    rw [readFrom, readFrom_raw cs (raw c :: done) hcs (Nat.le_of_succ_le_succ hfuel)]
    · simp
    · exact fun heq => hc heq.symm

theorem Builder.addSymbols_raw (es : Entities) (done : List Node) : ∀ (cs pending : List Char),
    addSymbols es pending done (cs.map .raw) = .ok (addText (cs.reverse ++ pending) done)
  | [], pending => rfl
  | c :: cs, pending => by
    rw [List.map_cons, addSymbols, addSymbols_raw es done cs]
    simp

/-! ## Steps -/

theorem Subset.attributes_written (name : String) (as : List (String × String)) :
    Subset.empty.attributes name (written as) = .ok as := by
  refine Outcome.bind_eq_ok.mpr ⟨as, ?_, by simp [Subset.empty]; rfl⟩
  rw [written, List.mapM_map]
  refine (Outcome.mapM_eq_ok (g := id) fun a _ => ?_).trans (congrArg Except.ok (List.map_id as))
  refine Outcome.bind_eq_ok.mpr ⟨a.2.toList, Entities.attributeValue_escape _, ?_⟩
  simp [Subset.rule?, Subset.empty, typedValue]
  rfl

namespace Builder

/-- Adds white space; outside the root element it is nothing. -/
def withBlank (b : Builder) (level : Nat) : Builder :=
  match b.frames with
  | [] => b
  | f :: fs => { b with frames := { f with content := blankNode level :: f.content } :: fs }

def inside (b : Builder) (name : String) (attributes : List (String × String)) (content : List Node) : Builder :=
  { b with frames := ⟨name, attributes, content⟩ :: b.frames }

theorem subset_withBlank (b : Builder) (level : Nat) : (b.withBlank level).subset = b.subset := by
  unfold withBlank
  split <;> rfl

theorem root_withBlank (b : Builder) (level : Nat) : (b.withBlank level).root = b.root := by
  unfold withBlank
  split <;> rfl

theorem length_frames_withBlank (b : Builder) (level : Nat) :
    (b.withBlank level).frames.length = b.frames.length := by
  unfold withBlank
  split
  · rfl
  · simp [*]

section
variable (b : Builder) (name : String) (attributes : List (String × String)) (content : List Node)

theorem subset_inside : (b.inside name attributes content).subset = b.subset :=
  rfl

theorem withBlank_inside (level : Nat) :
    (b.inside name attributes content).withBlank level = b.inside name attributes (blankNode level :: content) :=
  rfl

theorem addNode_inside (n : Node) :
    (b.inside name attributes content).addNode n = .ok (b.inside name attributes (n :: content)) :=
  rfl

theorem closeElement_inside : (b.inside name attributes content).closeElement name =
    b.addNode (.element name attributes content.reverse) := by
  simp [closeElement, inside]

end

section
variable {b : Builder} (hb : b.subset = none)
include hb

theorem charge_of_no_subset (texts : List (List Char)) : b.charge texts = .ok b := by
  simp [charge, subsetInEffect, hb, Subset.empty, Entities.empty]

theorem addContent_lineBreak (level : Nat) : b.addContent (lineBreak level) = .ok (b.withBlank level) := by
  have hblank := lineBreak_blank level
  unfold addContent withBlank
  cases hframes : b.frames with
  | nil =>
    have hspace : (lineBreak level).all isSpace = true := List.all_eq_true.mpr fun c hc => by
      rcases hblank c hc with rfl | rfl <;> rfl
    simp only [hspace, if_true]
  | cons f fs =>
    have hmem : ∀ c, c ≠ '\n' → c ≠ ' ' → c ∉ lineBreak level := fun c hfeed hspace hc =>
      (hblank c hc).elim hfeed hspace
    have hend : splitAt? "]]>" (lineBreak level) = none :=
      Declaration.splitFrom?_eq_none [] (hmem ']' (by decide) (by decide))
    have hread : Symbol.read (lineBreak level) = .ok ((lineBreak level).map .raw) :=
      Symbol.readFrom_raw _ [] (hmem '&' (by decide) (by decide)) (Nat.le_refl _)
    have hadd : addSymbols b.subsetInEffect.entities [] f.content ((lineBreak level).map .raw) =
        .ok (blankNode level :: f.content) := by
      rw [addSymbols_raw]
      simp [addText, lineBreak, blankNode]
    simp only [hend, hread, charge_of_no_subset hb]
    change addSymbols b.subsetInEffect.entities [] f.content _ >>= _ = _
    rw [hadd]
    rfl

theorem foldlM_text (level : Nat) (ts : List Token) :
    (Token.text (lineBreak level) :: ts).foldlM step b = ts.foldlM step (b.withBlank level) := by
  rw [List.foldlM_cons, step, addContent_lineBreak hb]
  rfl

theorem openElement_written (name : String) (as : List (String × String)) (hroot : b.frames = [] → b.root = none)
    (hdepth : b.frames.length < maxDepth) : b.openElement name (written as) = .ok (b.inside name as []) := by
  have hfirst : (b.frames.isEmpty && b.root.isSome) = false := by
    cases hframes : b.frames with
    | nil => simp [hroot hframes]
    | cons => rfl
  have hsubset : b.subsetInEffect = Subset.empty := by
    simp [subsetInEffect, hb]
  have hshallow : ¬maxDepth ≤ b.frames.length := by omega
  simp only [openElement, hfirst, hshallow, charge_of_no_subset hb]
  change b.subsetInEffect.attributes name (written as) >>= _ = _
  rw [hsubset, Subset.attributes_written]
  rfl

end

/-! ## Trees -/

section
variable {b c : Builder} {name : String} {attributes : List (String × List Char)}
  (h : b.openElement name attributes = .ok c)
include h

theorem step_opening : b.step (.opening name attributes false) = .ok c := by
  rw [step, h]
  rfl

theorem step_opening_empty : b.step (.opening name attributes true) = c.closeElement name := by
  rw [step, h]
  rfl

end

/-- What the lines of an element add to the tree: white space, and the element's node. -/
def Adds (e : Element) : Prop :=
  ∀ (level : Nat) (b : Builder), b.subset = none → (b.frames = [] → b.root = none) →
    b.frames.length + e.height ≤ maxDepth →
    ((tagLines level e).flatMap Line.tokens).foldlM step b = (b.withBlank level).addNode (e.toNode level)

theorem foldlM_tagLinesAll (level : Nat) {b : Builder} (name : String) (attributes : List (String × String))
    (hb : b.subset = none) : ∀ (es : List Element) (content : List Node), (∀ e ∈ es, Adds e) →
    b.frames.length + 1 + Element.heightAll es ≤ maxDepth →
    ((tagLinesAll level es).flatMap Line.tokens).foldlM step (b.inside name attributes content) =
      .ok (b.inside name attributes ((Element.toContent level es).reverse ++ content))
  | [], _, _, _ => rfl
  | e :: es, content, h, hdepth => by
    obtain ⟨he, hes⟩ := List.forall_mem_cons.mp h
    rw [Element.heightAll] at hdepth
    have hnode := he level (b.inside name attributes content) hb nofun (by simp only [inside, List.length_cons]; omega)
    rw [tagLinesAll, List.flatMap_append, List.foldlM_append, hnode, withBlank_inside, addNode_inside]
    refine (foldlM_tagLinesAll level name attributes hb es _ hes (by omega)).trans ?_
    simp [Element.toContent]

theorem adds_of_children {name text : String} {attributes namespaces : List (String × String)} {children : List Element}
    (h : ∀ c ∈ children, Adds c) : Adds ⟨name, attributes, children, text, namespaces⟩ := by
  intro level b hb hroot hdepth
  rw [Element.height] at hdepth
  -- the tag opens the element in the state after the white space
  have hsubset := (subset_withBlank b level).trans hb
  have hlength := length_frames_withBlank b level
  have hroot' : (b.withBlank level).frames = [] → (b.withBlank level).root = none := fun hnil => by
    rw [root_withBlank]
    exact hroot (List.length_eq_zero_iff.mp (hlength ▸ congrArg List.length hnil))
  have hopen := openElement_written hsubset name (namespaces ++ attributes) hroot' (by omega)
  rw [tagLines, Element.toNode]
  cases hchildren : children.isEmpty with
  | true =>
    simp only [if_true, List.flatMap_cons, List.flatMap_nil, List.append_nil, Line.tokens]
    rw [foldlM_text hb, List.foldlM_cons, step_opening_empty hopen, closeElement_inside]
    exact bind_pure _
  | false =>
    have hall := foldlM_tagLinesAll (level + 1) name (namespaces ++ attributes) hsubset children [] h (by omega)
    simp only [Bool.false_eq_true, if_false, List.flatMap_cons, List.flatMap_append, List.flatMap_nil, List.append_nil,
      Line.tokens, List.cons_append, List.nil_append]
    rw [foldlM_text hb, List.foldlM_cons, step_opening hopen]
    change List.foldlM step _ _ = _
    rw [List.foldlM_append, hall]
    change List.foldlM step _ _ = _
    rw [foldlM_text ((subset_inside ..).trans hsubset), withBlank_inside, List.foldlM_cons, step, closeElement_inside]
    simp

theorem adds (e : Element) : Adds e := by
  induction e using Element.tree_induction with
  | step e ih =>
    cases e
    exact adds_of_children ih

end Builder

/-- **The tags of a printed document build its tree.** -/
theorem ofTokens_tagLines {root : Element} (hdepth : root.height ≤ Builder.maxDepth) (standalone : Bool) :
    Node.ofTokens standalone ((tagLines 0 root).flatMap Line.tokens ++ [.text ['\n']]) =
      .ok (Subset.empty, root.toNode 0) := by
  have hroot := Builder.adds root 0 (Builder.start standalone) rfl (fun _ => rfl)
    (by simpa [Builder.start] using hdepth)
  have hnode : ((Builder.start standalone).withBlank 0).addNode (root.toNode 0) =
      .ok { Builder.start standalone with root := some (root.toNode 0) } := by
    cases root
    rw [Element.toNode]
    rfl
  rw [hnode] at hroot
  unfold Node.ofTokens
  rw [List.foldlM_append, hroot]
  rfl

end Xml

end XmlShape
