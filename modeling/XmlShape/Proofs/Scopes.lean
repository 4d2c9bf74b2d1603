import XmlShape.Proofs.Qualified
import XmlShape.Proofs.Reading

/-! # Scopes from the declarations of elements

An element lists only the declarations by which its scope differs from the one around it. Laid over each other
from the root down, those lists give the scope of every element again, prefix by prefix (`scopesKept_of_read`). -/

namespace XmlShape

namespace Xml

namespace Scope

/-! ## Declarations and what they bind -/

theorem declarationName_injective : Function.Injective declarationName := by
  intro p q h
  have hlength : ∀ n : String, "xmlns" ≠ "xmlns:" ++ n := by
    intro n hn
    have hcolon : ':' ∈ "xmlns".toList := by simp [hn, String.toList_append]
    exact absurd hcolon (by decide)
  unfold declarationName at h
  split at h <;> split at h
  · simp_all
  · exact absurd h (hlength q)
  · exact absurd h.symm (hlength p)
  · exact String.toList_injective (by simpa [String.toList_append] using congrArg String.toList h)

theorem bound?_eq_none {own : List (String × String)} {p : String} : bound? own p = none ↔ ∀ d ∈ own, d.1 ≠ p := by
  simp [bound?]

theorem Wellformed.bound?_extend {outer own : Scope} (houter : outer.Wellformed) (hown : own.Wellformed) (p : String) :
    bound? (outer.extend own) p = (bound? own p).or (bound? outer p) := by
  ext uri
  rw [bound?_eq_some (houter.extend hown).distinct, Option.or_eq_some_iff, bound?_eq_some hown.distinct,
    bound?_eq_some houter.distinct, bound?_eq_none, Scope.extend, List.mem_append, List.mem_filter]
  refine or_congr_right ?_
  rw [and_comm]
  simp

theorem mem_newDeclarations {outer : Scope} {own : List (String × String)} {key uri : String} :
    (key, uri) ∈ outer.newDeclarations own ↔
      ∃ p, key = declarationName p ∧ (p, uri) ∈ own ∧ bound? outer p ≠ some uri := by
  rw [newDeclarations, List.mem_map]
  constructor
  · rintro ⟨⟨p, v⟩, hmem, heq⟩
    obtain ⟨rfl, rfl⟩ := Prod.mk.inj heq
    obtain ⟨hown, hnew⟩ := List.mem_filter.mp hmem
    exact ⟨p, rfl, hown, by simpa using hnew⟩
  · rintro ⟨p, rfl, hown, hnew⟩
    exact ⟨(p, uri), List.mem_filter.mpr ⟨hown, by simpa using hnew⟩, rfl⟩

theorem nodup_newDeclarations {outer : Scope} {own : List (String × String)} (h : (own.map (·.1)).Nodup) :
    ((outer.newDeclarations own).map (·.1)).Nodup := by
  have hkept := h.sublist ((List.filter_sublist (p := fun d => bound? outer d.1 != some d.2) (l := own)).map (·.1))
  have hnames := hkept.map declarationName_injective
  rw [List.map_map] at hnames
  rwa [newDeclarations, List.map_map]

/-- The own declarations of an element say of a prefix what its tag does, unless that is nothing new. -/
theorem bound?_newDeclarations {own : List (String × String)} (h : (own.map (·.1)).Nodup) (outer : Scope) (p : String) :
    bound? (outer.newDeclarations own) (declarationName p) =
      if bound? own p = bound? outer p then none else bound? own p := by
  ext uri
  have hmem : bound? (outer.newDeclarations own) (declarationName p) = some uri ↔
      bound? own p = some uri ∧ bound? outer p ≠ some uri := by
    rw [bound?_eq_some (nodup_newDeclarations h), mem_newDeclarations, bound?_eq_some h]
    constructor
    · rintro ⟨q, hname, hown⟩
      exact declarationName_injective hname ▸ hown
    · exact fun hown => ⟨p, rfl, hown⟩
  rw [hmem]
  split
  · rename_i hsame
    simp [hsame]
  · rename_i hne
    exact ⟨fun hown => hown.1, fun hown => ⟨hown, fun houter => hne (hown.trans houter.symm)⟩⟩

/-! ## Nested tags and nested maps -/

/-- What maps say of a key where each is laid over those before it. -/
def overlaid (maps : List (List (String × String))) (key : String) : Option String :=
  maps.foldl (fun known m => (bound? m key).or known) none

/-- The namespace of a prefix inside nested tags, the outermost first: the innermost declaration counts. -/
def inScope (tags : List (List (String × String))) (p : String) : Option String :=
  tags.reverse.findSome? fun attributes => bound? (declarations attributes) p

theorem overlaid_snoc (maps : List (List (String × String))) (m : List (String × String)) (key : String) :
    overlaid (maps ++ [m]) key = (bound? m key).or (overlaid maps key) := by
  simp [overlaid]

theorem inScope_snoc (tags : List (List (String × String))) (attributes : List (String × String)) (p : String) :
    inScope (tags ++ [attributes]) p = (bound? (declarations attributes) p).or (inScope tags p) := by
  rw [inScope, List.reverse_append, List.reverse_singleton, List.singleton_append, List.findSome?_cons, inScope]
  cases bound? (declarations attributes) p <;> rfl

structure Mirrors (scope : Scope) (tags maps : List (List (String × String))) : Prop where
  wellformed : scope.Wellformed
  bound : ∀ p, bound? scope p = inScope tags p
  laid : ∀ p, overlaid maps (declarationName p) = bound? scope p
  keys : ∀ key uri, overlaid maps key = some uri → ∃ p, key = declarationName p

theorem Mirrors.nil : Mirrors [] [] [] :=
  ⟨wellformed_nil, fun _ => rfl, fun _ => rfl, nofun⟩

theorem Mirrors.snoc {outer : Scope} {tags maps : List (List (String × String))} {attributes : List (String × String)}
    (h : Mirrors outer tags maps) (hown : Wellformed (declarations attributes)) :
    Mirrors (outer.extend (declarations attributes)) (tags ++ [attributes])
      (maps ++ [outer.newDeclarations (declarations attributes)]) := by
  refine ⟨h.wellformed.extend hown, fun p => ?_, fun p => ?_, fun key uri hkey => ?_⟩
  · rw [h.wellformed.bound?_extend hown, inScope_snoc, h.bound]
  · rw [overlaid_snoc, h.laid, h.wellformed.bound?_extend hown, bound?_newDeclarations hown.distinct]
    -- a declaration that is left out repeats what the outer scope says, and is found there
    split
    · rename_i hsame
      rw [hsame, Option.none_or, Option.or_self]
    · rfl
  · rw [overlaid_snoc, Option.or_eq_some_iff] at hkey
    rcases hkey with hkey | ⟨-, hkey⟩
    · rw [bound?_eq_some (nodup_newDeclarations hown.distinct), mem_newDeclarations] at hkey
      obtain ⟨p, hname, -⟩ := hkey
      exact ⟨p, hname⟩
    · exact h.keys key uri hkey

/-- The map of an element against its tag, each with those around it, the outermost first: laid over each other the
maps are the scope inside the tag, and the element's own has nothing that is in scope around it. -/
structure Reconstructs (tag map : List (List (String × String)) × List (String × String)) : Prop where
  scope : ∀ key uri, overlaid (map.1 ++ [map.2]) key = some uri ↔
    ∃ p, key = declarationName p ∧ inScope (tag.1 ++ [tag.2]) p = some uri
  distinct : (map.2.map (·.1)).Nodup
  new : ∀ p uri, (declarationName p, uri) ∈ map.2 → inScope tag.1 p ≠ some uri

theorem Mirrors.reconstructs {outer : Scope} {tags maps : List (List (String × String))}
    {attributes : List (String × String)} (h : Mirrors outer tags maps) (hown : Wellformed (declarations attributes)) :
    Reconstructs (tags, attributes) (maps, outer.newDeclarations (declarations attributes)) := by
  have hinner := h.snoc hown
  refine ⟨fun key uri => ⟨fun hkey => ?_, ?_⟩, nodup_newDeclarations hown.distinct, fun p uri hmem => ?_⟩
  · obtain ⟨p, rfl⟩ := hinner.keys key uri hkey
    exact ⟨p, rfl, by rw [← hinner.bound, ← hinner.laid, hkey]⟩
  · rintro ⟨p, rfl, hp⟩
    rw [hinner.laid, hinner.bound, hp]
  · obtain ⟨q, hname, -, hnew⟩ := mem_newDeclarations.mp hmem
    rwa [← declarationName_injective hname, h.bound] at hnew

end Scope

/-! ## Documents -/

mutual
def Node.nestedTags (above : List (List (String × String))) :
    Node → List (List (List (String × String)) × List (String × String))
  | .element _ attributes content => (above, attributes) :: Node.nestedTagsAll (above ++ [attributes]) content
  | _ => []

def Node.nestedTagsAll (above : List (List (String × String))) :
    List Node → List (List (List (String × String)) × List (String × String))
  | [] => []
  | n :: ns => n.nestedTags above ++ Node.nestedTagsAll above ns
end

end Xml

namespace Element

mutual
def nestedMaps (above : List (List (String × String))) :
    Element → List (List (List (String × String)) × List (String × String))
  | ⟨_, _, children, _, namespaces⟩ => (above, namespaces) :: nestedMapsAll (above ++ [namespaces]) children

def nestedMapsAll (above : List (List (String × String))) :
    List Element → List (List (List (String × String)) × List (String × String))
  | [] => []
  | e :: es => e.nestedMaps above ++ nestedMapsAll above es
end

theorem nestedMapsAll_append (above : List (List (String × String))) : ∀ es fs : List Element,
    nestedMapsAll above (es ++ fs) = nestedMapsAll above es ++ nestedMapsAll above fs
  | [], fs => rfl
  | e :: es, fs => by simp [nestedMapsAll, nestedMapsAll_append above es fs]

end Element

namespace Xml

mutual
theorem Node.reconstructs_nestedTags {outer : Scope} {tags maps : List (List (String × String))}
    (h : outer.Mirrors tags maps) : ∀ {n : Node}, n.checkNames outer = .ok () →
    List.Forall₂ Scope.Reconstructs (n.nestedTags tags) (Element.nestedMapsAll maps (n.element? outer).toList)
  | .element name attributes content, hn => by
    rw [checkNames] at hn
    obtain ⟨inner, htag, hcontent⟩ := Outcome.bind_eq_ok.mp hn
    have hfollows := Scope.checkTag_eq_ok.mp htag
    have hown := hfollows.wellformed_declarations
    obtain rfl := hfollows.scope
    rw [nestedTags, element?, Option.toList_some, Element.nestedMapsAll, Element.nestedMapsAll, List.append_nil,
      Element.nestedMaps]
    exact .cons (h.reconstructs hown) (Node.reconstructs_nestedTagsAll (h.snoc hown) hcontent)
  | .text _, _ => .nil
  | .comment _, _ => .nil
  | .instruction _ _, _ => .nil
  | .entity _, _ => .nil

theorem Node.reconstructs_nestedTagsAll {outer : Scope} {tags maps : List (List (String × String))}
    (h : outer.Mirrors tags maps) : ∀ {ns : List Node},
    Node.checkNamesAll outer ns = .ok () →
    List.Forall₂ Scope.Reconstructs (Node.nestedTagsAll tags ns) (Element.nestedMapsAll maps (Node.elements outer ns))
  | [], _ => .nil
  | n :: ns, hns => by
    rw [checkNamesAll] at hns
    obtain ⟨hn, hns⟩ := Outcome.check_bind_eq_ok.mp hns
    rw [nestedTagsAll, elements, Element.nestedMapsAll_append]
    exact List.rel_append (Node.reconstructs_nestedTags h hn) (Node.reconstructs_nestedTagsAll h hns)
end

def ScopesKept (cs : List Char) (e : Element) : Prop :=
  ∃ s root, readTree cs = .ok (s, root) ∧ List.Forall₂ Scope.Reconstructs (root.nestedTags []) (e.nestedMaps [])

theorem scopesKept_of_readRoot {cs : List Char} {e : Element} (h : readRoot cs = .ok e) : ScopesKept cs e := by
  obtain ⟨s, root, htree, helement⟩ := exists_tree_of_readRoot h
  obtain ⟨_, _, _, _, -, -, -, -, hcheck⟩ := exists_stages_of_readTree htree
  have hroot := Node.reconstructs_nestedTags Scope.Mirrors.nil (Outcome.check_bind_eq_ok.mp hcheck).1
  exact ⟨s, root, htree, by simpa [helement, Element.nestedMapsAll] using hroot⟩

/-- **The scope of every element is made up of the declarations along the way to it.** -/
theorem scopesKept_of_read (e : Element) :
    (∀ s, readText s = .ok e → ScopesKept (withoutMark s.toList) e) ∧
      (∀ decoders bytes, readBytes decoders bytes = .ok e →
        ∃ cs, Encoding.decode decoders bytes = .ok cs ∧ ScopesKept cs e) := by
  constructor
  · intro s h
    exact scopesKept_of_readRoot (readRoot_of_readText h)
  · intro decoders bytes h
    obtain ⟨cs, hcs, hroot⟩ := readRoot_of_readBytes h
    exact ⟨cs, hcs, scopesKept_of_readRoot hroot⟩

def rebound : String :=
  "<r xmlns=\"u\" xmlns:p=\"v\"><c xmlns=\"\" xmlns:p=\"v\"><d xmlns=\"u\" xmlns:p=\"w\"/></c></r>"

theorem scopesKept_of_read_rebound :
    ∃ e, readText rebound = .ok e ∧
      (e.nestedMaps []).map (·.2) =
        [[("xmlns", "u"), ("xmlns:p", "v")], [("xmlns", "")], [("xmlns", "u"), ("xmlns:p", "w")]] ∧
      ScopesKept (withoutMark rebound.toList) e := by
  have hread : (readText rebound).map (fun e => (e.nestedMaps []).map (·.2)) =
      .ok [[("xmlns", "u"), ("xmlns:p", "v")], [("xmlns", "")], [("xmlns", "u"), ("xmlns:p", "w")]] := by
    decide +kernel
  obtain ⟨e, he, hmaps⟩ := Outcome.map_eq_ok.mp hread
  exact ⟨e, he, hmaps, (scopesKept_of_read e).1 _ he⟩

end Xml

end XmlShape
