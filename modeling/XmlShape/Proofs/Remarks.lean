import Mathlib
import XmlShape.Proofs.Reading
import XmlShape.Summary.Siblings

/-! # Comments and instructions

A parser may keep the characters of an element in pieces, some before its first child and some after each child,
and comments and instructions are children too. The pieces joined in order are all characters that stand directly in
the element, however they are split; so comments and instructions come and go without a change to the element, nor to
any summary of it (`remarks_unseen`). -/

namespace XmlShape.Xml

/-! ## Text in pieces -/

inductive Item where
  | element (name : String) (attributes : List (String × String)) (text : String) (children : List Item) (tail : String)
  | comment (s tail : String)
  | instruction (target content tail : String)
  | entity (name tail : String)

namespace Item

def tail : Item → String
  | element _ _ _ _ tail => tail
  | comment _ tail => tail
  | instruction _ _ tail => tail
  | entity _ tail => tail

mutual
def element? (scope : Scope) : Item → Option Element
  | element name attributes text children _ =>
    let own := Scope.declarations attributes
    let inner := scope.extend own
    some
      ⟨name, (properAttributes attributes).map fun a => (inner.attributeName a.1, a.2), elements inner children,
        String.join (text :: children.map tail), scope.newDeclarations own⟩
  | _ => none

def elements (scope : Scope) : List Item → List Element
  | [] => []
  | i :: is => (i.element? scope).toList ++ elements scope is
end

end Item

def Node.leading : List Node → String
  | .text s :: ns => s ++ Node.leading ns
  | _ => ""

mutual
def Node.item? (tail : String) : Node → Option Item
  | .element name attributes content =>
    some (.element name attributes (Node.leading content) (Node.items content) tail)
  | .text _ => none
  | .comment s => some (.comment s tail)
  | .instruction target content => some (.instruction target content tail)
  | .entity name => some (.entity name tail)

def Node.items : List Node → List Item
  | [] => []
  | n :: ns => (n.item? (Node.leading ns)).toList ++ Node.items ns
end

namespace Node

theorem directText_cons_text (s : String) (ns : List Node) : directText (.text s :: ns) = s ++ directText ns := by
  simp [directText]

theorem directText_cons {n : Node} (h : ∀ s, n ≠ .text s) (ns : List Node) : directText (n :: ns) = directText ns := by
  cases n with
  | text s => exact absurd rfl (h s)
  | _ => rfl

/-- No character is lost between the pieces, and none is taken twice. -/
theorem join_tails : ∀ content : List Node,
    String.join (leading content :: (items content).map Item.tail) = directText content
  | [] => rfl
  | n :: ns => by
    have ih := join_tails ns
    rw [String.join_cons] at ih ⊢
    cases n with
    | text s =>
      rw [directText_cons_text, ← ih, ← String.append_assoc]
      rfl
    | _ =>
      change _ = directText ns
      rw [← ih]
      simp [leading, items, item?, Item.tail]

mutual
theorem element?_item? (scope : Scope) (tail : String) : ∀ n : Node,
    (n.item? tail).bind (Item.element? scope) = n.element? scope
  | .element name attributes content => by
    rw [item?, Option.bind_some, Item.element?, element?, join_tails, elements_items]
  | .text _ => rfl
  | .comment _ => rfl
  | .instruction _ _ => rfl
  | .entity _ => rfl

theorem elements_items (scope : Scope) : ∀ ns : List Node, Item.elements scope (items ns) = elements scope ns
  | [] => rfl
  | n :: ns => by
    have ih := elements_items scope ns
    have hn := element?_item? scope (leading ns) n
    rw [items, elements, ← hn]
    cases n.item? (leading ns) with
    | none => exact ih
    | some i => rw [Option.toList_some, List.singleton_append, Item.elements, ih, Option.bind_some]
end

/-! ## Comments and instructions put in -/

def isRemark : Node → Bool
  | .comment _ => true
  | .instruction _ _ => true
  | _ => false

/-- A comment or an instruction is put somewhere into the content of an element: between two nodes, between two
characters, or further down. -/
inductive Inserts : Node → Node → Prop
  | between {name : String} {attributes : List (String × String)} {before after : List Node} {remark : Node} :
      remark.isRemark = true →
      Inserts (.element name attributes (before ++ after)) (.element name attributes (before ++ remark :: after))
  | within {name s t : String} {attributes : List (String × String)} {before after : List Node} {remark : Node} :
      remark.isRemark = true →
      Inserts (.element name attributes (before ++ .text (s ++ t) :: after))
        (.element name attributes (before ++ .text s :: remark :: .text t :: after))
  | inside {name : String} {attributes : List (String × String)} {before after : List Node} {n m : Node} : Inserts n m →
      Inserts (.element name attributes (before ++ n :: after)) (.element name attributes (before ++ m :: after))

def SameButRemarks : Node → Node → Prop :=
  Relation.EqvGen Inserts

theorem directText_append (ns ms : List Node) : directText (ns ++ ms) = directText ns ++ directText ms := by
  simp [directText]

theorem isElement_of_inserts {n m : Node} (h : Inserts n m) : (∀ s, n ≠ .text s) ∧ ∀ s, m ≠ .text s := by
  cases h <;> exact ⟨nofun, nofun⟩

/-- An element depends on its content only through the elements and the text there. -/
theorem element?_congr {name : String} {attributes : List (String × String)} {content others : List Node}
    (htext : directText content = directText others)
    (helements : ∀ scope, elements scope content = elements scope others) (scope : Scope) :
    (element name attributes content).element? scope = (element name attributes others).element? scope := by
  simp only [element?, htext, helements]

theorem element?_of_isRemark {remark : Node} (h : remark.isRemark = true) (scope : Scope) :
    remark.element? scope = none := by
  cases remark with
  | comment s => rfl
  | instruction target content => rfl
  | _ => cases h

theorem directText_cons_of_isRemark {remark : Node} (h : remark.isRemark = true) (ns : List Node) :
    directText (remark :: ns) = directText ns := by
  refine directText_cons (fun s hs => ?_) ns
  subst hs
  cases h

theorem element?_of_inserts {n m : Node} (h : Inserts n m) : ∀ scope, n.element? scope = m.element? scope := by
  induction h with
  | @between name attributes before after remark h =>
    refine element?_congr ?_ fun scope => ?_
    · rw [directText_append, directText_append, directText_cons_of_isRemark h]
    · simp only [elements_eq, List.filterMap_append, List.filterMap_cons, element?_of_isRemark h scope]
  | @within name s t attributes before after remark h =>
    refine element?_congr ?_ fun scope => ?_
    · rw [directText_append, directText_append, directText_cons_text, directText_cons_text,
        directText_cons_of_isRemark h, directText_cons_text, String.append_assoc]
    · have htext : ∀ s, (text s).element? scope = none := fun s => rfl
      simp only [elements_eq, List.filterMap_append, List.filterMap_cons, element?_of_isRemark h scope, htext]
  | @inside name attributes before after n m h ih =>
    refine element?_congr ?_ fun scope => ?_
    · rw [directText_append, directText_append, directText_cons (isElement_of_inserts h).1,
        directText_cons (isElement_of_inserts h).2]
    · simp only [elements_eq, List.filterMap_append, List.filterMap_cons, ih scope]

theorem element?_of_sameButRemarks {n m : Node} (h : SameButRemarks n m) (scope : Scope) :
    n.element? scope = m.element? scope := by
  induction h with
  | rel _ _ h => exact element?_of_inserts h scope
  | refl => rfl
  | symm _ _ _ ih => exact ih.symm
  | trans _ _ _ _ _ ih₁ ih₂ => exact ih₁.trans ih₂

end Node

/-! ## Documents -/

def SameContent (cs ds : List Char) : Prop :=
  ∃ s t n m, readTree cs = .ok (s, n) ∧ readTree ds = .ok (t, m) ∧ n.SameButRemarks m

theorem readRoot_of_sameContent {cs ds : List Char} (h : SameContent cs ds) : readRoot cs = readRoot ds := by
  obtain ⟨s, t, n, m, hcs, hds, hsame⟩ := h
  have helement := Node.element?_of_sameButRemarks hsame []
  simp only [readRoot, hcs, hds, helement, bind, Except.bind]

/-- **Comments and instructions are not seen.** The pieces of an element's text make up all characters directly inside
it, its children are the elements there, and what is put in or taken out beside them changes neither an element nor
the summaries of a corpus. -/
theorem remarks_unseen :
    (∀ (scope : Scope) (name : String) (attributes : List (String × String)) (content : List Node) (tail : String),
      ∃ e, ((Node.element name attributes content).item? tail).bind (Item.element? scope) = some e ∧
        (Node.element name attributes content).element? scope = some e ∧ e.text = Node.directText content ∧
        e.children = content.filterMap (Node.element? (scope.extend (Scope.declarations attributes)))) ∧
      (∀ n m : Node, n.SameButRemarks m → ∀ scope, n.element? scope = m.element? scope) ∧
      (∀ docs others : List (List Char), List.Forall₂ SameContent docs others →
        (docs.mapM readRoot).map Summary.ofDocuments = (others.mapM readRoot).map Summary.ofDocuments) := by
  refine ⟨fun scope name attributes content tail => ?_, fun n m => Node.element?_of_sameButRemarks,
    fun docs others h => ?_⟩
  · obtain ⟨e, he⟩ : ∃ e, (Node.element name attributes content).element? scope = some e := ⟨_, rfl⟩
    refine ⟨e, (Node.element?_item? scope tail _).trans he, he, ?_, ?_⟩
    · cases he
      rfl
    · cases he
      exact Node.elements_eq _ content
  · have hreads : docs.mapM readRoot = others.mapM readRoot := by
      induction h with
      | nil => rfl
      | cons hdoc _ ih => rw [List.mapM_cons, List.mapM_cons, readRoot_of_sameContent hdoc, ih]
    rw [hreads]

def annotated : String :=
  "<r>a<!--x-->b<?p q?><c/>d</r>"

def unannotated : String :=
  "<r>ab<c/>d</r>"

theorem remarks_unseen_annotated :
    List.Forall₂ SameContent [unannotated.toList] [annotated.toList] ∧
      ([unannotated.toList].mapM readRoot).map Summary.ofDocuments =
        ([annotated.toList].mapM readRoot).map Summary.ofDocuments := by
  have hplain : readTree unannotated.toList =
      .ok (Subset.empty, .element "r" [] [.text "ab", .element "c" [] [], .text "d"]) := by
    cbv
  have hremarks : readTree annotated.toList =
      .ok (Subset.empty, .element "r" []
        [.text "a", .comment "x", .text "b", .instruction "p" "q", .element "c" [] [], .text "d"]) := by
    cbv
  have hcomment : Node.Inserts (.element "r" [] [.text "ab", .element "c" [] [], .text "d"])
      (.element "r" [] [.text "a", .comment "x", .text "b", .element "c" [] [], .text "d"]) :=
    @Node.Inserts.within "r" "a" "b" [] [] [.element "c" [] [], .text "d"] (.comment "x") rfl
  have hinstruction : Node.Inserts (.element "r" [] [.text "a", .comment "x", .text "b", .element "c" [] [], .text "d"])
      (.element "r" []
        [.text "a", .comment "x", .text "b", .instruction "p" "q", .element "c" [] [], .text "d"]) :=
    @Node.Inserts.between "r" [] [.text "a", .comment "x", .text "b"] [.element "c" [] [], .text "d"]
      (.instruction "p" "q") rfl
  have hsame : SameContent unannotated.toList annotated.toList :=
    ⟨_, _, _, _, hplain, hremarks, .trans _ _ _ (.rel _ _ hcomment) (.rel _ _ hinstruction)⟩
  have hdocs : List.Forall₂ SameContent [unannotated.toList] [annotated.toList] := .cons hsame .nil
  exact ⟨hdocs, remarks_unseen.2.2 _ _ hdocs⟩

end XmlShape.Xml
