import XmlShape.Proofs.FirstSeen
import XmlShape.Proofs.Outcomes
import XmlShape.Proofs.Prolog
import XmlShape.Xml.Conformance

/-! # Qualified names in scope

What the rules of namespaces guarantee of the scope inside a tag, and what becomes of an attribute's name there:
the namespace and the local part stay, the prefix may be another one of the same namespace
(`Wellformed.attributeName_spec`). -/

namespace XmlShape.Xml.Scope

/-! ## Names with a colon -/

section
variable {name p l : String}

theorem splitName_of_not_mem (h : ':' ∉ name.toList) : splitName name = ("", name) := by
  have hsplit : splitAt? ":" name.toList = none := Declaration.splitFrom?_eq_none [] h
  rw [splitName, hsplit]

theorem splitName_colon (h : ':' ∉ p.toList) (l : String) : splitName (p ++ ":" ++ l) = (p, l) := by
  have hlist : (p ++ ":" ++ l).toList = p.toList ++ ':' :: l.toList := by
    simp [String.toList_append]
  have hsplit : splitAt? ":" (p ++ ":" ++ l).toList = some (p.toList, l.toList) := by
    rw [hlist]
    exact Declaration.splitFrom?_append_cons l.toList [] h
  rw [splitName, hsplit]
  simp

/-- A qualified name is a local name, or a prefix and a local name with a colon between. -/
theorem qualified_cases (h : isQualifiedName name = true) :
    ':' ∉ name.toList ∨
      ∃ p l, name = p ++ ":" ++ l ∧ p ≠ "" ∧ l ≠ "" ∧ ':' ∉ p.toList ∧ ':' ∉ l.toList := by
  by_cases hcolon : ':' ∈ name.toList
  · right
    obtain ⟨p, l, hname, hp⟩ := List.eq_append_cons_of_mem hcolon
    have hsplit : splitAt? ":" name.toList = some (p, l) := by
      rw [hname]
      exact Declaration.splitFrom?_append_cons l [] hp
    simp only [isQualifiedName, hsplit, Bool.and_eq_true, Bool.not_eq_true', List.isEmpty_eq_false_iff,
      List.contains_eq_mem, decide_eq_false_iff_not] at h
    obtain ⟨⟨hne, hl⟩, hstart⟩ := h
    refine ⟨String.ofList p, String.ofList l, ?_, by simpa using hne, ?_, by simpa using hp, by simpa using hl⟩
    · apply String.toList_injective
      simpa [String.toList_append] using hname
    · rintro hempty
      rw [String.ofList_eq_empty_iff.mp hempty] at hstart
      cases hstart
  · exact .inl hcolon

theorem colonless_splitName (h : isQualifiedName name = true) :
    ':' ∉ (splitName name).1.toList ∧ ':' ∉ (splitName name).2.toList := by
  rcases qualified_cases h with hname | ⟨p, l, rfl, -, -, hp, hl⟩
  · rw [splitName_of_not_mem hname]
    exact ⟨by simp, hname⟩
  · rw [splitName_colon hp]
    exact ⟨hp, hl⟩

/-- A declaration has the name that belongs to its prefix. -/
theorem declarationName_of_declaredPrefix? (h : isQualifiedName name = true) (hp : declaredPrefix? name = some p) :
    name = declarationName p := by
  unfold declaredPrefix? at hp
  split at hp
  · rename_i hname
    cases hp
    exact hname
  · split at hp
    · rename_i hxmlns hdeclaration
      cases hp
      have hprefix : "xmlns:".toList <+: name.toList := by
        simpa [isNamespaceDeclaration, hxmlns] using hdeclaration
      obtain ⟨l, hl⟩ := hprefix
      have hname : name = "xmlns" ++ ":" ++ String.ofList l := by
        apply String.toList_injective
        rw [← hl]
        simp [String.toList_append]
      have hxmlns : ':' ∉ "xmlns".toList := by decide
      have hsplit : splitName name = ("xmlns", String.ofList l) := by
        rw [hname]
        exact splitName_colon hxmlns _
      rw [hsplit, declarationName]
      split
      · rename_i hempty
        rcases qualified_cases h with hcolon | ⟨q, m, hqm, -, hm, hq, -⟩
        · exact absurd (by rw [hname]; simp [String.toList_append]) hcolon
        · rw [hqm, splitName_colon hq] at hsplit
          exact absurd ((Prod.mk.inj hsplit).2.trans hempty) hm
      · exact hname
    · cases hp

end

/-- Only the prefix `xmlns` makes a declaration. -/
theorem isNamespaceDeclaration_colon {p l : String} (hp : ':' ∉ p.toList) (h : p ≠ "xmlns") :
    isNamespaceDeclaration (p ++ ":" ++ l) = false := by
  have hlist : (p ++ ":" ++ l).toList = p.toList ++ ':' :: l.toList := by
    simp [String.toList_append]
  refine Bool.or_eq_false_iff.mpr ⟨beq_eq_false_iff_ne.mpr fun heq => ?_, Bool.eq_false_iff.mpr fun hprefix => h ?_⟩
  · have hcolon : ':' ∈ "xmlns".toList := by simp [← heq, hlist]
    exact absurd hcolon (by decide)
  · obtain ⟨m, hm⟩ := List.isPrefixOf_iff_prefix.mp hprefix
    have hname : p ++ ":" ++ l = "xmlns" ++ ":" ++ String.ofList m := by
      apply String.toList_injective
      rw [← hm]
      simp [String.toList_append]
    have hsplit := congrArg splitName hname
    rw [splitName_colon hp, splitName_colon (by decide)] at hsplit
    exact (Prod.mk.inj hsplit).1

/-! ## Names without a colon -/

section
variable {n : String} (hcolon : ':' ∉ n.toList)
include hcolon

theorem isQualifiedName_of_not_mem : isQualifiedName n = true := by
  have hsplit : splitAt? ":" n.toList = none := Declaration.splitFrom?_eq_none [] hcolon
  rw [isQualifiedName, hsplit]

theorem isNamespaceDeclaration_of_not_mem (h : n ≠ "xmlns") : isNamespaceDeclaration n = false := by
  refine Bool.or_eq_false_iff.mpr ⟨by simpa using h, Bool.eq_false_iff.mpr fun hprefix => hcolon ?_⟩
  exact (List.isPrefixOf_iff_prefix.mp hprefix).subset (by decide)

theorem declaredPrefix?_of_not_mem (h : n ≠ "xmlns") : declaredPrefix? n = none := by
  simp [declaredPrefix?, h, isNamespaceDeclaration_of_not_mem hcolon h]

variable (scope : Scope)

theorem checkPrefix_of_not_mem : checkPrefix scope n = .ok () := by
  simp [checkPrefix, splitName_of_not_mem hcolon]

theorem expandedName_of_not_mem : expandedName scope n = n := by
  simp [expandedName, splitName_of_not_mem hcolon]

theorem attributeName_of_not_mem : attributeName scope n = n := by
  simp [attributeName, splitName_of_not_mem hcolon]

end

/-! ## Tags that follow the rules -/

theorem firstRepeated?_eq_none : ∀ {names : List String}, firstRepeated? names = none ↔ names.Nodup
  | [] => iff_of_true rfl List.nodup_nil
  | name :: names => by
    rw [firstRepeated?, List.nodup_cons, ← firstRepeated?_eq_none]
    by_cases h : name ∈ names <;> simp [h]

theorem checkDistinct_eq_ok {names : List String} : checkDistinct names = .ok () ↔ names.Nodup := by
  rw [← firstRepeated?_eq_none, checkDistinct]
  cases firstRepeated? names <;> simp

/-- What a tag follows where nothing is wrong with it; `inner` is the scope inside. -/
structure Follows (outer : Scope) (name : String) (attributes : List (String × String)) (inner : Scope) : Prop where
  qualified : ∀ n ∈ name :: attributes.map (·.1), isQualifiedName n = true
  distinct : (attributes.map (·.1)).Nodup
  declared : ∀ a ∈ attributes, ∀ p, declaredPrefix? a.1 = some p → checkDeclaration p a.2 = .ok ()
  scope : inner = outer.extend (declarations attributes)
  bound : ∀ n ∈ name :: (properAttributes attributes).map (·.1), checkPrefix inner n = .ok ()
  unlike : ((properAttributes attributes).map fun a => expandedName inner a.1).Nodup

theorem checkTag_eq_ok {outer inner : Scope} {name : String} {attributes : List (String × String)} :
    outer.checkTag name attributes = .ok inner ↔ Follows outer name attributes inner := by
  have hproper : (attributes.map (·.1)).filter (fun n => !isNamespaceDeclaration n) =
      (properAttributes attributes).map (·.1) := by
    rw [List.filter_map]
    rfl
  simp only [checkTag, Outcome.check_bind_eq_ok, hproper, checkDistinct_eq_ok, checkDeclarations, Outcome.forM_eq_ok,
    List.map_map]
  constructor
  · rintro ⟨hqualified, hdistinct, hdeclared, hbound, hunlike, h⟩
    cases h
    refine ⟨fun n hn => ?_, hdistinct, fun a ha p hp => ?_, rfl, hbound, hunlike⟩
    · have := hqualified n hn
      split at this
      · assumption
      · cases this
    · simpa [hp] using hdeclared a ha
  · rintro ⟨hqualified, hdistinct, hdeclared, rfl, hbound, hunlike⟩
    refine ⟨fun n hn => if_pos (hqualified n hn), hdistinct, fun a ha => ?_, hbound, hunlike, rfl⟩
    split
    · exact hdeclared a ha _ ‹_›
    · rfl

/-! ## Scopes -/

/-- Prefixes are distinct and hold no colon, and neither the prefixes `xml` and `xmlns` nor the namespace of
the first are declared. -/
structure Wellformed (scope : Scope) : Prop where
  distinct : (scope.map (·.1)).Nodup
  colonless : ∀ d ∈ scope, ':' ∉ d.1.toList
  reserved : ∀ d ∈ scope, d.1 ≠ "xml" ∧ d.1 ≠ "xmlns" ∧ d.2 ≠ xmlNamespace

theorem wellformed_nil : Wellformed [] :=
  ⟨List.nodup_nil, List.forall_mem_nil _, List.forall_mem_nil _⟩

theorem Wellformed.extend {outer own : Scope} (houter : outer.Wellformed) (hown : own.Wellformed) :
    (outer.extend own).Wellformed := by
  refine ⟨?_, List.forall_mem_append.mpr ⟨hown.colonless, fun d hd => ?_⟩,
    List.forall_mem_append.mpr ⟨hown.reserved, fun d hd => ?_⟩⟩
  · rw [Scope.extend, List.map_append, List.nodup_append]
    refine ⟨hown.distinct, houter.distinct.sublist (List.filter_sublist.map _), fun p hp q hq hpq => ?_⟩
    obtain ⟨o, ho, rfl⟩ := List.mem_map.mp hp
    obtain ⟨d, hd, rfl⟩ := List.mem_map.mp hq
    have hnone := (List.mem_filter.mp hd).2
    simp only [Bool.not_eq_true', List.any_eq_false, beq_iff_eq] at hnone
    exact hnone o ho hpq
  · exact houter.colonless d ((List.mem_filter.mp hd).1)
  · exact houter.reserved d ((List.mem_filter.mp hd).1)

theorem mem_declarations {attributes : List (String × String)} {d : String × String} :
    d ∈ declarations attributes ↔ ∃ a ∈ attributes, declaredPrefix? a.1 = some d.1 ∧ d.1 ≠ "xml" ∧ a.2 = d.2 := by
  simp only [declarations, List.mem_filterMap]
  refine exists_congr fun a => and_congr_right fun _ => ?_
  cases h : declaredPrefix? a.1 with
  | none => simp
  | some p =>
    obtain ⟨q, uri⟩ := d
    by_cases hp : p = "xml"
    · subst hp
      simp
      rintro rfl h
      exact absurd rfl h
    · simp [hp]
      grind

/-- Declarations come from attributes of their names. -/
theorem declarationNames_sublist : ∀ {attributes : List (String × String)},
    (∀ a ∈ attributes, isQualifiedName a.1 = true) →
    ((declarations attributes).map fun d => declarationName d.1).Sublist (attributes.map (·.1))
  | [], _ => List.Sublist.refl _
  | a :: attributes, h => by
    obtain ⟨ha, hattributes⟩ := List.forall_mem_cons.mp h
    have ih := declarationNames_sublist hattributes
    rw [declarations] at ih
    rw [declarations, List.filterMap_cons, List.map_cons]
    cases hp : declaredPrefix? a.1 with
    | none => exact ih.cons _
    | some p =>
      by_cases hxml : p = "xml"
      · simpa [hxml] using ih.cons _
      · have hname : declarationName p = a.1 := (declarationName_of_declaredPrefix? ha hp).symm
        simpa [hxml, hname] using ih.cons_cons a.1

section
variable {outer inner : Scope} {name : String} {attributes : List (String × String)}

theorem Follows.wellformed_declarations (h : Follows outer name attributes inner) :
    Wellformed (declarations attributes) := by
  have hqualified : ∀ a ∈ attributes, isQualifiedName a.1 = true := fun a ha =>
    h.qualified a.1 (List.mem_cons_of_mem _ (List.mem_map_of_mem ha))
  refine ⟨?_, fun d hd => ?_, fun d hd => ?_⟩
  · have hnames := h.distinct.sublist (declarationNames_sublist hqualified)
    rw [← Function.comp_def declarationName, ← List.map_map] at hnames
    exact hnames.of_map
  · obtain ⟨a, ha, hp, -, -⟩ := mem_declarations.mp hd
    unfold declaredPrefix? at hp
    split at hp
    · simp [← Option.some.inj hp]
    · split at hp
      · rw [← Option.some.inj hp]
        exact (colonless_splitName (hqualified a ha)).2
      · cases hp
  · obtain ⟨a, ha, hp, hxml, huri⟩ := mem_declarations.mp hd
    have hcheck := h.declared a ha d.1 hp
    rw [huri, checkDeclaration, if_neg hxml] at hcheck
    refine ⟨hxml, fun hxmlns => ?_, fun hreserved => ?_⟩
    · simp [hxmlns] at hcheck
    · simp [hreserved] at hcheck

/-- A tag that follows the rules makes a scope as good as the one around it. -/
theorem Follows.wellformed (h : Follows outer name attributes inner) (houter : outer.Wellformed) : inner.Wellformed :=
  h.scope ▸ houter.extend h.wellformed_declarations

end

/-! ## The names of attributes -/

/-- Whether a declaration further on stands for the same namespace as the prefix: one further to the right in
the tag, or one of an element around it. -/
def overruled (scope : Scope) (p : String) : Bool :=
  match scope.dropWhile fun d => d.1 != p with
  | (_, uri) :: later => p != "" && later.any fun d => d.1 != "" && d.2 == uri
  | [] => false

theorem overruled_empty (scope : Scope) : overruled scope "" = false := by
  unfold overruled
  split <;> rfl

/-- What becomes of the name of an attribute: without a prefix it stays, else the prefix is one of the same
namespace, another one just where its own is overruled. -/
inductive Renames (scope : Scope) : String → String → Prop
  | unprefixed {name : String} : ':' ∉ name.toList → Renames scope name name
  | prefixed {p q uri : String} (l : String) : p ≠ "" → q ≠ "" → ':' ∉ p.toList → ':' ∉ q.toList →
      uri? scope p = some uri → uri? scope q = some uri → q = "xml" ∨ (q, uri) ∈ scope →
      (q = p ↔ overruled scope p = false) → Renames scope (p ++ ":" ++ l) (q ++ ":" ++ l)

def meaning (scope : Scope) (name : String) : Option String × String :=
  let (p, l) := splitName name
  (if p = "" then none else uri? scope p, l)

/-- Where its prefix is bound, a name is expanded by what it stands for. -/
theorem expandedName_eq_elim {scope : Scope} {name : String} (h : checkPrefix scope name = .ok ()) :
    expandedName scope name =
      (meaning scope name).1.elim (meaning scope name).2 fun uri => uri ++ " " ++ (meaning scope name).2 := by
  unfold checkPrefix at h
  unfold expandedName meaning
  by_cases hp : (splitName name).1 = ""
  · simp [hp]
  · cases huri : uri? scope (splitName name).1 with
    | none => simp [hp, huri] at h
    | some uri => simp [hp, huri]

section
variable {scope : Scope} {name found : String} (h : Renames scope name found)
include h

theorem Renames.expandedName : expandedName scope found = expandedName scope name := by
  cases h with
  | unprefixed => rfl
  | prefixed l hp hq hpcolon hqcolon hpuri hquri _ _ =>
    simp only [Scope.expandedName, splitName_colon hpcolon, splitName_colon hqcolon, if_neg hp, if_neg hq, hpuri, hquri]

theorem Renames.eq_iff : found = name ↔ overruled scope (splitName name).1 = false := by
  cases h with
  | unprefixed hcolon => simp [splitName_of_not_mem hcolon, overruled_empty]
  | prefixed l _ _ hpcolon hqcolon _ _ _ hiff =>
    rw [splitName_colon hpcolon, ← hiff]
    constructor
    · intro heq
      have hsplit := congrArg splitName heq
      rw [splitName_colon hqcolon, splitName_colon hpcolon] at hsplit
      exact (Prod.mk.inj hsplit).1
    · rintro rfl
      rfl

theorem Renames.meaning : meaning scope found = meaning scope name := by
  cases h with
  | unprefixed => rfl
  | prefixed l hp hq hpcolon hqcolon hpuri hquri _ _ =>
    simp only [Scope.meaning, splitName_colon hpcolon, splitName_colon hqcolon, if_neg hp, if_neg hq, hpuri, hquri]

theorem Renames.isSome_namespace : (Scope.meaning scope name).1.isSome ↔ (splitName found).1 ≠ "" := by
  cases h with
  | unprefixed hcolon => simp [Scope.meaning, splitName_of_not_mem hcolon]
  | prefixed l hp hq hpcolon hqcolon hpuri _ _ _ =>
    simp [Scope.meaning, splitName_colon hpcolon, splitName_colon hqcolon, hp, hq, hpuri]

/-- A name that declares no namespace does not become one that does, as no scope has the prefix `xmlns`. -/
theorem Renames.proper (hscope : scope.Wellformed) (hname : isNamespaceDeclaration name = false) :
    isNamespaceDeclaration found = false := by
  cases h with
  | unprefixed => exact hname
  | @prefixed p q uri l _ _ _ hqcolon _ _ hmem _ =>
    refine isNamespaceDeclaration_colon hqcolon ?_
    rcases hmem with rfl | hmem
    · decide
    · exact (hscope.reserved _ hmem).2.1

end

theorem bound?_eq_some {own : List (String × String)} (h : (own.map (·.1)).Nodup) {p uri : String} :
    bound? own p = some uri ↔ (p, uri) ∈ own := by
  constructor
  · intro hbound
    obtain ⟨⟨q, v⟩, hfind, rfl⟩ := Option.map_eq_some_iff.mp hbound
    have hq : q = p := by simpa using List.find?_some hfind
    exact hq ▸ List.mem_of_find?_eq_some hfind
  · intro hmem
    have hfind := FirstSeen.find?_key_of_mem h hmem
    rw [bound?, hfind]
    rfl

section
variable {scope : Scope} (hscope : scope.Wellformed)
include hscope

theorem Wellformed.bound?_of_mem {d : String × String} (hd : d ∈ scope) : bound? scope d.1 = some d.2 :=
  (bound?_eq_some hscope.distinct).mpr hd

theorem Wellformed.uri?_of_mem {d : String × String} (hd : d ∈ scope) : uri? scope d.1 = some d.2 := by
  rw [uri?, if_neg (hscope.reserved d hd).1, hscope.bound?_of_mem hd]

theorem Wellformed.overruled_xml : overruled scope "xml" = false := by
  have hnone : scope.dropWhile (fun d => d.1 != "xml") = [] := by
    refine List.dropWhile_eq_nil_iff.mpr fun d hd => ?_
    simpa using (hscope.reserved d hd).1
  rw [overruled, hnone]

/-- The last prefix of the namespace is found: another one just where the prefix is overruled. -/
theorem Wellformed.prefixFor?_of_mem {p uri : String} (hp : p ≠ "") (hd : (p, uri) ∈ scope) :
    ∃ q, prefixFor? scope uri = some q ∧ q ≠ "" ∧ (q, uri) ∈ scope ∧ (q = p ↔ overruled scope p = false) := by
  obtain ⟨before, later, rfl⟩ := List.append_of_mem hd
  have hdistinct := hscope.distinct
  rw [List.map_append, List.map_cons, List.nodup_append, List.nodup_cons] at hdistinct
  obtain ⟨-, ⟨hlater, -⟩, hbefore⟩ := hdistinct
  have hdrop : (before ++ (p, uri) :: later).dropWhile (fun d => d.1 != p) = (p, uri) :: later := by
    rw [List.dropWhile_append_of_pos fun d hd => ?_]
    · simp
    · simpa using hbefore d.1 (List.mem_map_of_mem hd) p (List.mem_cons_self ..)
  have hoverruled : overruled (before ++ (p, uri) :: later) p = later.any fun d => d.1 != "" && d.2 == uri := by
    simp [overruled, hdrop, hp]
  have hfound : ((before ++ (p, uri) :: later).reverse.find? fun d => d.1 != "" && d.2 == uri) =
      (later.reverse.find? fun d => d.1 != "" && d.2 == uri).or (some (p, uri)) := by
    simp [List.reverse_append, List.find?_append, hp]
  have huri : uri ≠ xmlNamespace := (hscope.reserved _ hd).2.2
  rw [prefixFor?, if_neg huri, hfound, hoverruled]
  -- either no later prefix stands for the namespace, or the last one that does is found in place of `p`
  cases hlast : later.reverse.find? fun d => d.1 != "" && d.2 == uri with
  | none =>
    have hnone : (later.any fun d => d.1 != "" && d.2 == uri) = false := by
      simpa using hlast
    exact ⟨p, rfl, hp, hd, by simp [hnone]⟩
  | some d =>
    obtain ⟨q, v⟩ := d
    have hmem : (q, v) ∈ later := List.mem_reverse.mp (List.mem_of_find?_eq_some hlast)
    have hq := List.find?_some hlast
    simp only [Bool.and_eq_true, bne_iff_ne, beq_iff_eq] at hq
    obtain ⟨hq, rfl⟩ := hq
    have hsome : (later.any fun d => d.1 != "" && d.2 == v) = true := List.any_eq_true.mpr ⟨_, hmem, by simpa using hq⟩
    have hne : q ≠ p := fun h => hlater (List.mem_map.mpr ⟨_, hmem, h⟩)
    exact ⟨q, rfl, hq, by simp [hmem], by simp [hsome, hne]⟩

section
variable {name : String} (hname : isQualifiedName name = true) (hbound : checkPrefix scope name = .ok ())
include hname hbound

theorem Wellformed.renames_attributeName : Renames scope name (attributeName scope name) := by
  rcases qualified_cases hname with hcolon | ⟨p, l, rfl, hp, -, hpcolon, -⟩
  · rw [attributeName_of_not_mem hcolon]
    exact .unprefixed hcolon
  · have hsplit := splitName_colon hpcolon l
    by_cases hxml : p = "xml"
    · subst hxml
      have hkept : attributeName scope ("xml" ++ ":" ++ l) = "xml" ++ ":" ++ l := by
        simp only [attributeName, hsplit, if_neg hp, uri?, prefixFor?, if_true, Option.bind_some]
      rw [hkept]
      exact .prefixed l hp hp hpcolon hpcolon rfl rfl (.inl rfl) (by simp [hscope.overruled_xml])
    · obtain ⟨uri, huri⟩ : ∃ uri, uri? scope p = some uri := by
        simp only [checkPrefix, hsplit] at hbound
        split at hbound
        · rename_i h
          exact Option.isSome_iff_exists.mp (by simpa [hp] using h)
        · cases hbound
      have hd : (p, uri) ∈ scope := by
        rw [uri?, if_neg hxml] at huri
        exact (bound?_eq_some hscope.distinct).mp huri
      obtain ⟨q, hfound, hq, hmem, hiff⟩ := hscope.prefixFor?_of_mem hp hd
      have hrenamed : attributeName scope (p ++ ":" ++ l) = q ++ ":" ++ l := by
        simp [attributeName, hsplit, hp, huri, hfound]
      rw [hrenamed]
      exact .prefixed l hp hq hpcolon (hscope.colonless _ hmem) huri (hscope.uri?_of_mem hmem) (.inr hmem) hiff

/-- An attribute keeps its namespace and its local name, and it keeps its prefix unless that is overruled. -/
theorem Wellformed.attributeName_spec :
    expandedName scope (attributeName scope name) = expandedName scope name ∧
      (attributeName scope name = name ↔ overruled scope (splitName name).1 = false) := by
  have h := hscope.renames_attributeName hname hbound
  exact ⟨h.expandedName, h.eq_iff⟩

end

end

end XmlShape.Xml.Scope
