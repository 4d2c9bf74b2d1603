import XmlShape.Proofs.Listing
import XmlShape.Proofs.Printable
import XmlShape.Proofs.Subsets
import XmlShape.Xml.Document

/-! # What reading a document gives

The invariant of a reader: its names are made of name characters, and the values of its attributes of
characters that XML allows. It holds of the tokens, is kept by every step that puts a token in its place, and
so holds of the root (`legible_of_readBytes`). -/

namespace XmlShape.Xml

/-! ## Tokens -/

namespace Token

def Legible : Token → Prop
  | opening name attributes _ => IsName name ∧ LegibleWritten attributes
  | doctype d => ∀ m ∈ d.subset, m.Legible
  | _ => True

variable {cs rest : List Char}

theorem attribute?_legible {a : String × List Char} (hcs : Xml.Legible cs)
    (h : attributes.attribute? cs = some (a, rest)) : (IsName a.1 ∧ Xml.Legible a.2) ∧ rest <:+ cs := by
  simp only [attributes.attribute?, Option.bind_eq_bind, Option.bind_eq_some_iff] at h
  obtain ⟨b, hb, ⟨name, d⟩, hd, e, he, ⟨value, f⟩, hf, h⟩ := h
  split at h
  · cases h
  · cases h
    have he' : e <:+ cs := by grind
    obtain ⟨hvalue, hrest⟩ := literal?_suffix hf
    exact ⟨⟨(name?_suffix hd).1, (hcs.of_suffix he').of_subset hvalue⟩, hrest.trans he'⟩

theorem attributes_legible : ∀ {fuel : Nat} {done found : List (String × List Char)} {isEmpty : Bool}
    {cs rest : List Char}, LegibleWritten done → Xml.Legible cs →
    attributes done fuel cs = .ok (found, isEmpty, rest) → LegibleWritten found ∧ rest <:+ cs
  | 0, _, _, _, _, _, _, _, h => by cases h
  | fuel + 1, done, found, isEmpty, cs, rest, hdone, hcs, h => by
    unfold attributes at h
    split at h
    · cases h
      exact ⟨fun a ha => hdone a (List.mem_reverse.mp ha), by grind⟩
    · cases h
      exact ⟨fun a ha => hdone a (List.mem_reverse.mp ha), by grind⟩
    · split at h
      · rename_i a inner hattribute
        obtain ⟨ha, hinner⟩ := attribute?_legible hcs hattribute
        obtain ⟨hfound, hrest⟩ := attributes_legible (List.forall_mem_cons.mpr ⟨ha, hdone⟩) (hcs.of_suffix hinner) h
        exact ⟨hfound, hrest.trans hinner⟩
      · cases h

theorem next_legible {fuel : Nat} {t : Token} (hcs : Xml.Legible cs) (h : next fuel cs = .ok (t, rest)) :
    t.Legible ∧ rest <:+ cs := by
  unfold next at h
  split at h
  · obtain ⟨⟨content, a⟩, ha, h⟩ := Outcome.bind_eq_ok.mp h
    cases h
    exact ⟨trivial, by grind⟩
  · obtain ⟨⟨target, content, a⟩, ha, h⟩ := Outcome.bind_eq_ok.mp h
    cases h
    exact ⟨trivial, by grind⟩
  · split at h
    · rename_i hclosing
      cases h
      simp only [closing?, Option.bind_eq_bind, Option.bind_eq_some_iff, Option.some.injEq, Prod.mk.injEq] at hclosing
      obtain ⟨⟨name, a⟩, ha, b, hb, rfl, rfl⟩ := hclosing
      exact ⟨trivial, by grind⟩
    · cases h
  · split at h
    · split at h
      · cases h
        exact ⟨trivial, by grind⟩
      · cases h
    · split at h
      · rename_i inner hword
        obtain ⟨⟨d, a⟩, ha, h⟩ := Outcome.bind_eq_ok.mp h
        cases h
        have hinner := (after?_suffix hword).trans ((List.suffix_cons '!' _).trans (List.suffix_cons '<' _))
        obtain ⟨hd, hrest⟩ := DoctypeDecl.read_legible (hcs.of_suffix hinner) ha
        exact ⟨hd, hrest.trans hinner⟩
      · cases h
  · split at h
    · rename_i name inner hname
      obtain ⟨⟨found, isEmpty, a⟩, ha, h⟩ := Outcome.bind_eq_ok.mp h
      cases h
      obtain ⟨hname, hinner⟩ := name?_suffix hname
      have hinner := hinner.trans (List.suffix_cons '<' _)
      obtain ⟨hfound, hrest⟩ :=
        attributes_legible (fun _ ha => absurd ha List.not_mem_nil) (hcs.of_suffix hinner) ha
      exact ⟨⟨hname, hfound⟩, hrest.trans hinner⟩
    · cases h
  · rw [List.span_eq_takeWhile_dropWhile] at h
    cases h
    exact ⟨trivial, List.dropWhile_suffix _⟩

theorem readFrom_legible {fuel : Nat} {done tokens : List Token} (hdone : ∀ t ∈ done, t.Legible)
    (hcs : Xml.Legible cs) (h : readFrom fuel done cs = .ok tokens) : ∀ t ∈ tokens, t.Legible := by
  fun_induction readFrom fuel done cs with
  | case1 =>
    cases h
    simpa using hdone
  | case2 => cases h
  | case3 fuel done cs _ ih =>
    obtain ⟨⟨t, rest⟩, hnext, h⟩ := Outcome.bind_eq_ok.mp h
    obtain ⟨ht, hrest⟩ := next_legible hcs hnext
    exact ih t rest (List.forall_mem_cons.mpr ⟨ht, hdone⟩) (hcs.of_suffix hrest) h

theorem read_legible {tokens : List Token} (hcs : Xml.Legible cs) (h : read cs = .ok tokens) :
    ∀ t ∈ tokens, t.Legible :=
  readFrom_legible (fun _ ht => absurd ht List.not_mem_nil) hcs h

end Token

/-! ## Trees -/

inductive Node.Legible : Node → Prop
  | element {name : String} {attributes : List (String × String)} {content : List Node} : IsName name →
      LegibleAttributes attributes → (∀ n ∈ content, n.Legible) → Legible (.element name attributes content)
  | text {s : String} : Legible (.text s)
  | comment {s : String} : Legible (.comment s)
  | instruction {target content : String} : Legible (.instruction target content)
  | entity {name : String} : Legible (.entity name)

structure Frame.Legible (f : Frame) : Prop where
  name : IsName f.name
  attributes : LegibleAttributes f.attributes
  content : ∀ n ∈ f.content, n.Legible

namespace Builder

/-- The invariant of building a tree. -/
structure Legible (b : Builder) : Prop where
  subset : ∀ s, b.subset = some s → s.Legible
  frames : ∀ f ∈ b.frames, f.Legible
  root : ∀ n, b.root = some n → n.Legible

theorem charge_eq {b c : Builder} {texts : List (List Char)} (h : b.charge texts = .ok c) :
    ∃ n, c = { b with expanded := n } := by
  unfold charge at h
  simp only at h
  split at h
  · cases h
    exact ⟨b.expanded, rfl⟩
  · split at h
    · cases h
      exact ⟨_, rfl⟩
    · cases h

theorem legible_addText {pending : List Char} {done : List Node} (hdone : ∀ n ∈ done, n.Legible) :
    ∀ n ∈ addText pending done, n.Legible := by
  unfold addText
  split
  · exact hdone
  · exact List.forall_mem_cons.mpr ⟨.text, hdone⟩

theorem legible_addSymbols {es : Entities} {symbols : List Symbol} {pending : List Char} {done found : List Node}
    (hdone : ∀ n ∈ done, n.Legible) (h : addSymbols es pending done symbols = .ok found) :
    ∀ n ∈ found, n.Legible := by
  fun_induction addSymbols es pending done symbols with
  | case1 pending done =>
    cases h
    exact legible_addText hdone
  | case2 pending done c ss ih => exact ih hdone h
  | case3 pending done c ss ih => exact ih hdone h
  | case4 pending done name ss c hc ih => exact ih hdone h
  | case5 => cases h
  | case6 pending done name ss _ value _ _ ih =>
    exact ih (List.forall_mem_cons.mpr ⟨.entity, legible_addText hdone⟩) h
  | case7 pending done name ss _ _ _ ih =>
    exact ih (List.forall_mem_cons.mpr ⟨.entity, legible_addText hdone⟩) h
  | case8 => cases h

section
variable {b c : Builder} (hb : b.Legible)
include hb

theorem legible_subsetInEffect : b.subsetInEffect.Legible := by
  unfold subsetInEffect
  cases hsubset : b.subset with
  | none => exact Subset.legible_empty
  | some s => exact hb.subset s hsubset

theorem legible_charge {texts : List (List Char)} (h : b.charge texts = .ok c) : c.Legible := by
  obtain ⟨n, rfl⟩ := charge_eq h
  exact ⟨hb.subset, hb.frames, hb.root⟩

theorem legible_addNode {n : Node} (hn : n.Legible) (h : b.addNode n = .ok c) : c.Legible := by
  unfold addNode at h
  split at h
  · rename_i f fs n hframes
    cases h
    have hframes := hframes ▸ hb.frames
    obtain ⟨hf, hfs⟩ := List.forall_mem_cons.mp hframes
    have hcontent := List.forall_mem_cons.mpr ⟨hn, hf.content⟩
    exact ⟨hb.subset, List.forall_mem_cons.mpr ⟨⟨hf.name, hf.attributes, hcontent⟩, hfs⟩, hb.root⟩
  · cases h
    exact hb
  · cases h
    exact hb
  · split at h
    · cases h
    · cases h
      refine ⟨hb.subset, hb.frames, fun m hm => ?_⟩
      cases hm
      exact hn

theorem legible_openElement {name : String} {written : List (String × List Char)} (hname : IsName name)
    (hwritten : LegibleWritten written) (h : b.openElement name written = .ok c) : c.Legible := by
  simp only [openElement] at h
  split at h
  · cases h
  · split at h
    · cases h
    · obtain ⟨b', hcharge, h⟩ := Outcome.bind_eq_ok.mp h
      obtain ⟨attributes, hattributes, h⟩ := Outcome.bind_eq_ok.mp h
      cases h
      have hb' := legible_charge hb hcharge
      have hattributes := Subset.legible_attributes (legible_subsetInEffect hb') hwritten hattributes
      refine ⟨hb'.subset, List.forall_mem_cons.mpr ⟨⟨hname, hattributes, ?_⟩, hb'.frames⟩, hb'.root⟩
      exact List.forall_mem_nil _

theorem legible_closeElement {name : String} (h : b.closeElement name = .ok c) : c.Legible := by
  unfold closeElement at h
  split at h
  · cases h
  · rename_i f fs hframes
    split at h
    · obtain ⟨hf, hfs⟩ := List.forall_mem_cons.mp (hframes ▸ hb.frames)
      have hcontent : ∀ n ∈ f.content.reverse, n.Legible := fun n hn => hf.content n (List.mem_reverse.mp hn)
      have hrest : ({ b with frames := fs } : Builder).Legible := ⟨hb.subset, hfs, hb.root⟩
      exact legible_addNode hrest (.element hf.name hf.attributes hcontent) h
    · cases h

theorem legible_addContent {cs : List Char} (h : b.addContent cs = .ok c) : c.Legible := by
  unfold addContent at h
  split at h
  · split at h
    · cases h
      exact hb
    · cases h
  · rename_i f fs hframes
    split at h
    · cases h
    · obtain ⟨symbols, -, h⟩ := Outcome.bind_eq_ok.mp h
      obtain ⟨b', hcharge, h⟩ := Outcome.bind_eq_ok.mp h
      obtain ⟨content, hcontent, h⟩ := Outcome.bind_eq_ok.mp h
      cases h
      have hb' := legible_charge hb hcharge
      obtain ⟨hf, hfs⟩ := List.forall_mem_cons.mp (hframes ▸ hb.frames)
      have hcontent := legible_addSymbols hf.content hcontent
      exact ⟨hb'.subset, List.forall_mem_cons.mpr ⟨⟨hf.name, hf.attributes, hcontent⟩, hfs⟩, hb'.root⟩

theorem legible_step {t : Token} (ht : t.Legible) (h : b.step t = .ok c) : c.Legible := by
  cases t with
  | text cs => exact legible_addContent hb h
  | cdata cs =>
    simp only [step] at h
    split at h
    · cases h
    · exact legible_addNode hb .text h
  | comment cs => exact legible_addNode hb .comment h
  | instruction target cs => exact legible_addNode hb .instruction h
  | opening name attributes isEmpty =>
    -- an empty element is opened and closed by the same token
    obtain ⟨b', hopen, h⟩ := Outcome.bind_eq_ok.mp h
    have hb' := legible_openElement hb ht.1 ht.2 hopen
    split at h
    · exact legible_closeElement hb' h
    · cases h
      exact hb'
  | closing name => exact legible_closeElement hb h
  | doctype d =>
    simp only [step] at h
    split at h
    · obtain ⟨s, hs, h⟩ := Outcome.bind_eq_ok.mp h
      cases h
      refine ⟨fun t ht' => ?_, hb.frames, hb.root⟩
      cases ht'
      exact Subset.legible_ofDoctype ht hs
    · cases h

end

end Builder

/-- **A whole document keeps the invariant of its tokens.** -/
theorem Node.legible_ofTokens {standalone : Bool} {tokens : List Token} (ht : ∀ t ∈ tokens, t.Legible)
    {s : Subset} {root : Node} (h : Node.ofTokens standalone tokens = .ok (s, root)) : root.Legible := by
  unfold Node.ofTokens at h
  obtain ⟨b, hb, h⟩ := Outcome.bind_eq_ok.mp h
  have hstart : (Builder.start standalone).Legible := ⟨nofun, List.forall_mem_nil _, nofun⟩
  have hb := Outcome.foldlM_preserves (fun t h s u hs hu => Builder.legible_step hs (ht t h) hu) hstart hb
  split at h
  · cases h
  · cases h
  · rename_i hroot
    cases h
    exact hb.root _ hroot

/-! ## Elements -/

namespace Scope

def Legible (scope : Scope) : Prop :=
  ∀ d ∈ scope, ∀ c ∈ d.1.toList, isNameChar c = true

theorem splitName_subset (name : String) :
    (splitName name).1.toList ⊆ name.toList ∧ (splitName name).2.toList ⊆ name.toList := by
  unfold splitName
  split
  · rename_i p l hsplit
    obtain ⟨hp, hl⟩ := splitAt?_suffix hsplit
    simpa using ⟨hp, hl.subset⟩
  · simp

theorem legible_declarations {attributes : List (String × String)} (h : LegibleAttributes attributes) :
    Legible (declarations attributes) := by
  intro d hd c hc
  obtain ⟨a, ha, heq⟩ := List.mem_filterMap.mp hd
  split at heq
  · rename_i p hp
    split at heq
    · cases heq
    · cases heq
      unfold declaredPrefix? at hp
      split at hp
      · cases hp
        cases hc
      · split at hp
        · cases hp
          exact (h a ha).1.all c ((splitName_subset a.1).2 hc)
        · cases hp
  · cases heq

theorem legible_extend {outer : Scope} {own : List (String × String)} (houter : Legible outer) (hown : Legible own) :
    Legible (outer.extend own) :=
  List.forall_mem_append.mpr ⟨hown, fun d hd => houter d (List.mem_of_mem_filter hd)⟩

theorem prefixFor?_nameChars {scope : Scope} (hscope : Legible scope) {uri p : String}
    (h : prefixFor? scope uri = some p) : ∀ c ∈ p.toList, isNameChar c = true := by
  unfold prefixFor? at h
  split at h
  · cases h
    exact List.all_eq_true.mp (by decide)
  · simp only [Option.map_eq_some_iff] at h
    obtain ⟨d, hd, rfl⟩ := h
    exact hscope d (List.mem_reverse.mp (List.mem_of_find?_eq_some hd))

theorem attributeName_nameChars {scope : Scope} (hscope : Legible scope) {name : String} (hname : IsName name) :
    ∀ c ∈ (attributeName scope name).toList, isNameChar c = true := by
  have hlocal : ∀ c ∈ (splitName name).2.toList, isNameChar c = true := fun c hc =>
    hname.all c ((splitName_subset name).2 hc)
  unfold attributeName
  simp only
  split
  · exact hlocal
  · split
    · rename_i q hq
      obtain ⟨uri, -, hq⟩ := Option.bind_eq_some_iff.mp hq
      have hchars := prefixFor?_nameChars hscope hq
      have hcolon : ∀ c ∈ ":".toList, isNameChar c = true := List.all_eq_true.mp (by decide)
      simp only [String.toList_append, List.forall_mem_append]
      exact ⟨⟨hchars, hcolon⟩, hlocal⟩
    · exact hlocal

end Scope

end XmlShape.Xml

namespace XmlShape

open Xml

inductive Element.Legible : Element → Prop
  | intro {e : Element} : IsName e.name →
      (∀ a ∈ e.attributes, (∀ c ∈ a.1.toList, isNameChar c = true) ∧ Xml.Legible a.2.toList) →
      (∀ c ∈ e.children, Legible c) → Legible e

namespace Xml

theorem Node.elements_eq (scope : Scope) : ∀ ns : List Node, Node.elements scope ns = ns.filterMap (Node.element? scope)
  | [] => rfl
  | n :: ns => by
    rw [Node.elements, Node.elements_eq scope ns, List.filterMap_cons]
    cases n.element? scope <;> rfl

mutual
theorem Node.legible_element? {n : Node} (h : n.Legible) {scope : Scope} (hscope : scope.Legible) :
    ∀ e ∈ n.element? scope, e.Legible := by
  intro e he
  cases h with
  | @element name attributes content hname hattributes hcontent =>
    cases he
    have hinner := Scope.legible_extend hscope (Scope.legible_declarations hattributes)
    refine .intro hname (fun a ha => ?_) (Node.legible_elements hcontent hinner)
    obtain ⟨w, hw, rfl⟩ := List.mem_map.mp ha
    obtain ⟨hw, hvalue⟩ := hattributes w (List.mem_of_mem_filter hw)
    exact ⟨Scope.attributeName_nameChars hinner hw, hvalue⟩
  | _ => cases he
termination_by sizeOf n

theorem Node.legible_elements : ∀ {ns : List Node} (_ : ∀ n ∈ ns, n.Legible) {scope : Scope} (_ : scope.Legible),
    ∀ e ∈ Node.elements scope ns, e.Legible
  | [], _, _, _ => by simp [Node.elements]
  | n :: ns, hns, scope, hscope => by
    obtain ⟨hn, hns⟩ := List.forall_mem_cons.mp hns
    rw [Node.elements]
    refine List.forall_mem_append.mpr ⟨fun e he => ?_, Node.legible_elements hns hscope⟩
    exact Node.legible_element? hn hscope e (Option.mem_toList.mp he)
termination_by ns => sizeOf ns
end

/-! ## Documents -/

theorem legible_joinLineEnds {done cs : List Char} (hdone : Legible done) (hcs : Legible cs) :
    Legible (joinLineEnds done cs) := by
  fun_induction joinLineEnds done cs with
  | case1 done => exact fun c hc => hdone c (List.mem_reverse.mp hc)
  | case2 done cs ih =>
    have hcs := List.forall_mem_cons.mp (List.forall_mem_cons.mp hcs).2
    exact ih (List.forall_mem_cons.mpr ⟨by decide, hdone⟩) hcs.2
  | case3 done cs _ ih => exact ih (List.forall_mem_cons.mpr ⟨by decide, hdone⟩) (List.forall_mem_cons.mp hcs).2
  | case4 done c cs _ _ ih =>
    obtain ⟨hc, hcs⟩ := List.forall_mem_cons.mp hcs
    exact ih (List.forall_mem_cons.mpr ⟨hc, hdone⟩) hcs

theorem legible_normalize {cs ds : List Char} (h : normalize cs = .ok ds) : Legible ds := by
  unfold normalize at h
  split at h
  · rename_i hall
    cases h
    exact legible_joinLineEnds (List.forall_mem_nil _) (List.all_eq_true.mp hall)
  · cases h

namespace Declaration

variable {cs rest : List Char}

@[grind →]
theorem field?_suffix {name : String} {value : List Char} (h : field? name cs = some (value, rest)) :
    rest <:+ cs := by
  simp only [field?, Option.bind_eq_bind, Option.bind_eq_some_iff] at h
  grind

@[grind →]
theorem version?_suffix {version : String} (h : version? cs = some (version, rest)) : rest <:+ cs := by
  simp only [version?, Option.bind_eq_bind, Option.bind_eq_some_iff] at h
  grind

@[grind →]
theorem encoding?_suffix {encoding : Option String} (h : encoding? cs = some (encoding, rest)) : rest <:+ cs := by
  unfold encoding? at h
  split at h
  · grind
  · split at h
    · grind
    · simp only [Option.bind_eq_bind, Option.bind_eq_some_iff] at h
      grind

@[grind →]
theorem standalone?_suffix {standalone : Bool} (h : standalone? cs = some (standalone, rest)) : rest <:+ cs := by
  unfold standalone? at h
  split at h
  · grind
  · split at h
    · grind
    · simp only [Option.bind_eq_bind, Option.bind_eq_some_iff] at h
      grind

theorem fields?_suffix {d : Declaration} (h : fields? cs = some (d, rest)) : rest <:+ cs := by
  simp only [fields?, Option.bind_eq_bind, Option.bind_eq_some_iff, Option.pure_def, Option.some.injEq,
    Prod.mk.injEq] at h
  grind

theorem read_suffix {d : Declaration} (h : read cs = .ok (d, rest)) : rest <:+ cs := by
  unfold read at h
  split at h
  · cases h
    exact List.suffix_rfl
  · rename_i inner hopening
    have hinner : inner <:+ cs := by
      unfold opening? at hopening
      split at hopening
      · split at hopening
        · grind
        · cases hopening
      · cases hopening
    split at h
    · cases h
    · rename_i hfields
      split at h
      · cases h
        exact (fields?_suffix hfields).trans hinner
      · cases h

end Declaration

/-- A document is read stage by stage, and each of them succeeds. -/
theorem exists_stages_of_readTree {cs : List Char} {s : Subset} {root : Node} (h : readTree cs = .ok (s, root)) :
    ∃ ds declaration rest tokens, normalize cs = .ok ds ∧ Declaration.read ds = .ok (declaration, rest) ∧
      Token.read rest = .ok tokens ∧ Node.ofTokens declaration.standalone tokens = .ok (s, root) ∧
      root.check s = .ok () := by
  unfold readTree at h
  obtain ⟨ds, hds, h⟩ := Outcome.bind_eq_ok.mp h
  obtain ⟨⟨declaration, rest⟩, hdeclaration, h⟩ := Outcome.bind_eq_ok.mp h
  obtain ⟨tokens, htokens, h⟩ := Outcome.bind_eq_ok.mp h
  obtain ⟨⟨t, n⟩, hn, h⟩ := Outcome.bind_eq_ok.mp h
  obtain ⟨hcheck, h⟩ := Outcome.check_bind_eq_ok.mp h
  cases h
  exact ⟨ds, declaration, rest, tokens, hds, hdeclaration, htokens, hn, hcheck⟩

theorem exists_tree_of_readRoot {cs : List Char} {e : Element} (h : readRoot cs = .ok e) :
    ∃ s root, readTree cs = .ok (s, root) ∧ root.element? [] = some e := by
  unfold readRoot at h
  obtain ⟨⟨s, root⟩, htree, h⟩ := Outcome.bind_eq_ok.mp h
  refine ⟨s, root, htree, ?_⟩
  simp only at h
  split at h
  · rename_i helement
    cases h
    exact helement
  · cases h

theorem legible_readRoot {cs : List Char} {e : Element} (h : readRoot cs = .ok e) : e.Legible := by
  obtain ⟨s, root, htree, helement⟩ := exists_tree_of_readRoot h
  obtain ⟨ds, declaration, rest, tokens, hds, hdeclaration, htokens, hn, -⟩ := exists_stages_of_readTree htree
  have hrest := (legible_normalize hds).of_suffix (Declaration.read_suffix hdeclaration)
  have hroot := Node.legible_ofTokens (Token.read_legible hrest htokens) hn
  exact Node.legible_element? hroot (List.forall_mem_nil _) _ helement

theorem asReadError_eq_ok {r : Except SyntaxError Element} {e : Element} : asReadError r = .ok e ↔ r = .ok e := by
  cases r <;> simp [asReadError]

theorem readRoot_of_readText {s : String} {e : Element} (h : readText s = .ok e) :
    readRoot (withoutMark s.toList) = .ok e := by
  unfold readText at h
  split at h
  · cases h
  · exact asReadError_eq_ok.mp h

theorem readRoot_of_readBytes {decoders : Decoders} {bytes : ByteArray} {e : Element}
    (h : readBytes decoders bytes = .ok e) : ∃ cs, Encoding.decode decoders bytes = .ok cs ∧ readRoot cs = .ok e := by
  unfold readBytes at h
  split at h
  · cases h
  · exact Outcome.bind_eq_ok.mp (asReadError_eq_ok.mp h)

/-- **What is read can be written.** -/
theorem legible_readBytes {decoders : Decoders} {bytes : ByteArray} {e : Element}
    (h : readBytes decoders bytes = .ok e) : e.Legible := by
  obtain ⟨cs, -, hroot⟩ := readRoot_of_readBytes h
  exact legible_readRoot hroot

theorem legible_readText {s : String} {e : Element} (h : readText s = .ok e) : e.Legible :=
  legible_readRoot (readRoot_of_readText h)

end Xml

namespace Element.Legible

theorem isName {e : Element} : e.Legible → IsName e.name
  | .intro h _ _ => h

theorem attributes {e : Element} : e.Legible →
    ∀ a ∈ e.attributes, (∀ c ∈ a.1.toList, isNameChar c = true) ∧ Xml.Legible a.2.toList
  | .intro _ h _ => h

theorem children {e : Element} : e.Legible → ∀ c ∈ e.children, c.Legible
  | .intro _ _ h => h

theorem representable {e : Element} : e.Legible → e.Representable
  | .intro hname hattributes hchildren => by
    refine .intro (List.all_eq_true.mpr hname.legible) (fun a ha => ?_) fun c hc => (hchildren c hc).representable
    obtain ⟨hn, hv⟩ := hattributes a (List.mem_of_mem_filter ha)
    exact ⟨List.all_eq_true.mpr fun c hc => isChar_of_isNameChar (hn c hc), List.all_eq_true.mpr hv⟩

/-- No name that a document holds is empty, and none holds a slash. -/
theorem slashless {e : Element} : e.Legible → e.Slashless
  | .intro hname hattributes hchildren => by
    have hslash : ∀ {s : String}, (∀ c ∈ s.toList, isNameChar c = true) → '/' ∉ s.toList := fun h hc =>
      absurd (h '/' hc) (by decide)
    refine .intro (fun hempty => ?_) (hslash hname.all) (fun a ha => hslash (hattributes a ha).1)
      fun c hc => (hchildren c hc).slashless
    obtain ⟨c, cs, hs, -⟩ := hname
    rw [hempty] at hs
    cases hs

end Element.Legible

end XmlShape
