import XmlShape.Proofs.Outcomes
import XmlShape.Proofs.Scanning
import XmlShape.Xml.Doctype

/-! # What a document type declares

The texts of entities and the default values of attributes are made of characters of the declaration, or
of characters given by number. -/

namespace XmlShape.Xml

variable {cs rest : List Char}

namespace ContentModel

theorem afterRepetition_suffix (cs : List Char) : afterRepetition cs <:+ cs := by
  unfold afterRepetition
  split
  · exact List.suffix_cons '?' _
  · exact List.suffix_cons '*' _
  · exact List.suffix_cons '+' _
  · exact List.suffix_rfl

/-- Groups stand inside particles and particles inside groups, so the fuel goes down for both at once. -/
theorem particle?_group?_suffix : ∀ fuel : Nat,
    (∀ {cs rest : List Char}, particle? fuel cs = some rest → rest <:+ cs) ∧
      ∀ {separator : Option Char} {cs rest : List Char}, group? separator fuel cs = some rest → rest <:+ cs
  | 0 => by simp [particle?, group?]
  | fuel + 1 => by
    obtain ⟨hparticle, hgroup⟩ := particle?_group?_suffix fuel
    constructor
    · intro cs rest h
      unfold particle? at h
      split at h
      · contradiction
      · rename_i inner heq
        cases heq
        simp only [Option.bind_eq_bind, Option.bind_eq_some_iff, Option.some.injEq] at h
        obtain ⟨a, ha, b, hb, rfl⟩ := h
        have hinner := (hparticle ha).trans (skipSpace_suffix inner)
        have hafter := (hgroup hb).trans ((skipSpace_suffix a).trans hinner)
        exact (afterRepetition_suffix b).trans (hafter.trans (List.suffix_cons '(' inner))
      · simp only [Option.bind_eq_bind, Option.bind_eq_some_iff, Option.some.injEq] at h
        obtain ⟨⟨n, a⟩, hn, rfl⟩ := h
        exact (afterRepetition_suffix a).trans (name?_suffix hn).2
    · intro separator cs rest h
      unfold group? at h
      split at h
      · cases h
        exact List.suffix_cons ')' _
      · rename_i c inner _
        split at h
        · simp only [Option.bind_eq_bind, Option.bind_eq_some_iff] at h
          obtain ⟨a, ha, h⟩ := h
          have hinner := (hparticle ha).trans ((skipSpace_suffix inner).trans (List.suffix_cons c inner))
          exact (hgroup h).trans ((skipSpace_suffix a).trans hinner)
        · cases h
      · cases h

theorem mixed?_suffix {named : Bool} {fuel : Nat} (h : mixed? named fuel cs = some rest) : rest <:+ cs := by
  fun_induction mixed? named fuel cs with
  | case1 => cases h
  | case2 => grind
  | case3 => cases h
  | case4 => grind
  | case5 named fuel cs inner hspace ih =>
    simp only [Option.bind_eq_bind, Option.bind_eq_some_iff] at h
    obtain ⟨⟨n, a⟩, hn, h⟩ := h
    have ha := ih a h
    grind
  | case6 => cases h

@[grind →]
theorem after?_suffix (h : ContentModel.after? cs = some rest) : rest <:+ cs := by
  unfold ContentModel.after? at h
  split at h
  · grind
  · split at h
    · grind
    · split at h
      · rename_i inner _ _
        have hinner := (skipSpace_suffix inner).trans (List.suffix_cons '(' inner)
        split at h
        · rename_i hword
          exact (mixed?_suffix h).trans ((Xml.after?_suffix hword).trans hinner)
        · exact (particle?_group?_suffix _).1 h
      · cases h

end ContentModel

namespace EntityValue

def Legible : EntityValue → Prop
  | text replacement => Xml.Legible replacement
  | external => True
  | unparsed => True

end EntityValue

structure AttributeRule.Legible (r : AttributeRule) : Prop where
  name : IsName r.name
  value : ∀ v, r.value = some v → Xml.Legible v

namespace MarkupDecl

def Legible : MarkupDecl → Prop
  | entity _ value => value.Legible
  | parameter _ value => value.Legible
  | attributes rules => ∀ r ∈ rules, r.Legible
  | inclusion _ => True
  | other => True

theorem legible_valueText {s : Symbol} (h : s.Proper) : Xml.Legible (valueText s) := by
  cases s with
  | raw c => exact List.forall_mem_singleton.mpr h
  | numbered c => exact List.forall_mem_singleton.mpr h
  | entity name =>
    refine List.forall_mem_cons.mpr ⟨by decide, List.forall_mem_append.mpr ⟨IsName.legible h, ?_⟩⟩
    exact List.forall_mem_singleton.mpr (by decide)

theorem legible_replacement? {value replacement : List Char} (hvalue : Xml.Legible value)
    (h : replacement? value = some replacement) : Xml.Legible replacement := by
  unfold replacement? at h
  split at h
  · cases h
  · split at h
    · rename_i symbols hread
      cases h
      intro c hc
      obtain ⟨s, hs, hc⟩ := List.mem_flatMap.mp hc
      exact legible_valueText (Symbol.read_proper hvalue hread s hs) c hc
    · cases h

/-! ## Identifiers and entities -/

@[grind →]
theorem publicLiteral?_suffix (h : publicLiteral? cs = some rest) : rest <:+ cs := by
  simp only [publicLiteral?, Option.bind_eq_bind, Option.bind_eq_some_iff] at h
  grind

@[grind →]
theorem afterExternal?_suffix (h : afterExternal? cs = some rest) : rest <:+ cs := by
  unfold afterExternal? at h
  split at h
  · simp only [Option.bind_eq_bind, Option.bind_eq_some_iff] at h
    grind
  · simp only [Option.bind_eq_bind, Option.bind_eq_some_iff] at h
    grind

@[grind →]
theorem plainName?_suffix {n : String} (h : plainName? cs = some (n, rest)) : rest <:+ cs := by
  simp only [plainName?, Option.bind_eq_bind, Option.bind_eq_some_iff] at h
  grind

@[grind →]
theorem unparsed?_suffix {isUnparsed : Bool} (h : unparsed? cs = some (isUnparsed, rest)) : rest <:+ cs := by
  unfold unparsed? at h
  split at h
  · grind
  · rename_i hword
    simp only [Option.bind_eq_bind, Option.bind_eq_some_iff] at h hword
    grind

@[grind →]
theorem afterEnd?_suffix (h : afterEnd? cs = some rest) : rest <:+ cs :=
  (after?_suffix h).trans (skipSpace_suffix cs)

theorem entityValue?_legible {value : EntityValue} (hcs : Xml.Legible cs)
    (h : entityValue? cs = some (value, rest)) : value.Legible ∧ rest <:+ cs := by
  unfold entityValue? at h
  split at h
  · rename_i hliteral
    simp only [Option.bind_eq_bind, Option.bind_eq_some_iff, Option.some.injEq, Prod.mk.injEq] at h
    obtain ⟨replacement, hreplacement, rfl, rfl⟩ := h
    obtain ⟨hcontent, hrest⟩ := literal?_suffix hliteral
    exact ⟨legible_replacement? (hcs.of_subset hcontent) hreplacement, hrest⟩
  · simp only [Option.bind_eq_bind, Option.bind_eq_some_iff, Option.some.injEq, Prod.mk.injEq] at h
    obtain ⟨a, ha, ⟨isUnparsed, b⟩, hb, rfl, rfl⟩ := h
    refine ⟨?_, by grind⟩
    split <;> trivial

theorem entity?_legible {m : MarkupDecl} (hcs : Xml.Legible cs) (h : entity? cs = some (m, rest)) :
    m.Legible ∧ rest <:+ cs := by
  simp only [entity?, Option.bind_eq_bind, Option.bind_eq_some_iff] at h
  obtain ⟨a, ha, h⟩ := h
  split at h
  · rename_i b hb
    simp only [Option.bind_eq_some_iff] at h hb
    obtain ⟨d, hd, hb⟩ := hb
    obtain ⟨⟨name, e⟩, he, f, hf, ⟨value, g⟩, hg, i, hi, h⟩ := h
    split at h
    · cases h
    · cases h
      have hf' : f <:+ cs := by grind
      obtain ⟨hvalue, hrest⟩ := entityValue?_legible (hcs.of_suffix hf') hg
      exact ⟨hvalue, (afterEnd?_suffix hi).trans (hrest.trans hf')⟩
  · simp only [Option.bind_eq_some_iff, Option.some.injEq, Prod.mk.injEq] at h
    obtain ⟨⟨name, e⟩, he, f, hf, ⟨value, g⟩, hg, i, hi, rfl, rfl⟩ := h
    have hf' : f <:+ cs := by grind
    obtain ⟨hvalue, hrest⟩ := entityValue?_legible (hcs.of_suffix hf') hg
    exact ⟨hvalue, (afterEnd?_suffix hi).trans (hrest.trans hf')⟩

/-! ## Attributes -/

theorem choices?_suffix {item? : List Char → Option (String × List Char)}
    (hitem : ∀ {cs n rest}, item? cs = some (n, rest) → rest <:+ cs) :
    ∀ {fuel : Nat} {cs rest : List Char}, choices? item? fuel cs = some rest → rest <:+ cs
  | 0, _, _, h => by cases h
  | fuel + 1, cs, rest, h => by
    simp only [choices?, Option.bind_eq_bind, Option.bind_eq_some_iff] at h
    obtain ⟨⟨n, a⟩, ha, h⟩ := h
    have ha := (hitem ha).trans (skipSpace_suffix cs)
    split at h
    · grind
    · have hrest := choices?_suffix hitem h
      grind
    · cases h

@[grind →]
theorem attributeType?_suffix {type : AttributeType} (h : attributeType? cs = some (type, rest)) : rest <:+ cs := by
  unfold attributeType? at h
  split at h
  · rename_i hword
    cases h
    obtain ⟨w, -, hw⟩ := List.exists_of_findSome?_eq_some hword
    simp only [Option.map_eq_some_iff, Prod.mk.injEq] at hw
    grind
  · split at h
    · simp only [Option.map_eq_some_iff, Prod.mk.injEq] at h
      obtain ⟨a, ha, -, rfl⟩ := h
      exact (choices?_suffix nameToken?_suffix ha).trans (List.suffix_cons '(' _)
    · simp only [Option.bind_eq_bind, Option.bind_eq_some_iff, Option.some.injEq, Prod.mk.injEq] at h
      obtain ⟨a, ha, b, hb, d, hd, e, he, -, rfl⟩ := h
      have hrest := choices?_suffix (fun h => (name?_suffix h).2) he
      grind

theorem defaultValue?_legible {value : Option (List Char)} (hcs : Xml.Legible cs)
    (h : defaultValue? cs = some (value, rest)) : (∀ v, value = some v → Xml.Legible v) ∧ rest <:+ cs := by
  unfold defaultValue? at h
  split at h
  · cases h
    exact ⟨nofun, by grind⟩
  · split at h
    · cases h
      exact ⟨nofun, by grind⟩
    · have hgiven : ∀ {a : List Char}, a <:+ cs →
          ((literal? a).bind fun v => if v.1.contains '<' then none else some (some v.1, v.2)) = some (value, rest) →
          (∀ v, value = some v → Xml.Legible v) ∧ rest <:+ cs := by
        intro a ha h
        simp only [Option.bind_eq_some_iff] at h
        obtain ⟨⟨content, b⟩, hb, h⟩ := h
        obtain ⟨hcontent, hrest⟩ := literal?_suffix hb
        split at h
        · cases h
        · cases h
          refine ⟨fun v hv => ?_, hrest.trans ha⟩
          cases hv
          exact (hcs.of_suffix ha).of_subset hcontent
      simp only [Option.bind_eq_bind] at h
      split at h
      · obtain ⟨a, ha, h⟩ := Option.bind_eq_some_iff.mp h
        exact hgiven (by grind) h
      · exact hgiven List.suffix_rfl h

theorem rule?_legible {element : String} {r : AttributeRule} (hcs : Xml.Legible cs)
    (h : rule? element cs = some (r, rest)) : r.Legible ∧ rest <:+ cs := by
  simp only [rule?, Option.bind_eq_bind, Option.bind_eq_some_iff, Option.some.injEq, Prod.mk.injEq] at h
  obtain ⟨⟨name, a⟩, ha, b, hb, ⟨type, d⟩, hd, e, he, ⟨value, f⟩, hf, rfl, rfl⟩ := h
  have he' : e <:+ cs := by grind
  obtain ⟨hvalue, hrest⟩ := defaultValue?_legible (hcs.of_suffix he') hf
  exact ⟨⟨(name?_suffix ha).1, hvalue⟩, hrest.trans he'⟩

theorem rulesFrom?_legible {element : String} : ∀ {fuel : Nat} {done rules : List AttributeRule} {cs rest : List Char},
    (∀ r ∈ done, r.Legible) → Xml.Legible cs → rulesFrom? element done fuel cs = some (rules, rest) →
    (∀ r ∈ rules, r.Legible) ∧ rest <:+ cs
  | 0, _, _, _, _, _, _, h => by cases h
  | fuel + 1, done, rules, cs, rest, hdone, hcs, h => by
    unfold rulesFrom? at h
    split at h
    · rename_i hend
      cases h
      exact ⟨by simpa using hdone, afterEnd?_suffix hend⟩
    · simp only [Option.bind_eq_bind, Option.bind_eq_some_iff] at h
      obtain ⟨a, ha, ⟨r, b⟩, hb, h⟩ := h
      have ha := afterSpace?_suffix ha
      obtain ⟨hr, hb⟩ := rule?_legible (hcs.of_suffix ha) hb
      have hb := hb.trans ha
      obtain ⟨hrules, hrest⟩ := rulesFrom?_legible (List.forall_mem_cons.mpr ⟨hr, hdone⟩) (hcs.of_suffix hb) h
      exact ⟨hrules, hrest.trans hb⟩

theorem attributes?_legible {m : MarkupDecl} (hcs : Xml.Legible cs) (h : attributes? cs = some (m, rest)) :
    m.Legible ∧ rest <:+ cs := by
  simp only [attributes?, Option.bind_eq_bind, Option.bind_eq_some_iff, Option.some.injEq, Prod.mk.injEq] at h
  obtain ⟨a, ha, ⟨element, b⟩, hb, ⟨rules, d⟩, hd, rfl, rfl⟩ := h
  have hb' : b <:+ cs := by grind
  obtain ⟨hrules, hrest⟩ := rulesFrom?_legible (fun _ hr => absurd hr List.not_mem_nil) (hcs.of_suffix hb') hd
  exact ⟨hrules, hrest.trans hb'⟩

/-! ## Other declarations -/

theorem elementType?_legible {m : MarkupDecl} (h : elementType? cs = some (m, rest)) : m.Legible ∧ rest <:+ cs := by
  simp only [elementType?, Option.bind_eq_bind, Option.bind_eq_some_iff, Option.some.injEq, Prod.mk.injEq] at h
  obtain ⟨a, ha, ⟨name, b⟩, hb, d, hd, e, he, f, hf, rfl, rfl⟩ := h
  exact ⟨trivial, by grind⟩

@[grind →]
theorem notationId?_suffix (h : notationId? cs = some rest) : rest <:+ cs := by
  unfold notationId? at h
  split at h
  · grind
  · simp only [Option.bind_eq_bind, Option.bind_eq_some_iff] at h
    grind

theorem notationDecl?_legible {m : MarkupDecl} (h : notationDecl? cs = some (m, rest)) :
    m.Legible ∧ rest <:+ cs := by
  simp only [notationDecl?, Option.bind_eq_bind, Option.bind_eq_some_iff, Option.some.injEq, Prod.mk.injEq] at h
  obtain ⟨a, ha, ⟨name, b⟩, hb, d, hd, e, he, f, hf, rfl, rfl⟩ := h
  exact ⟨trivial, by grind⟩

theorem inclusion?_legible {m : MarkupDecl} (h : inclusion? cs = some (m, rest)) : m.Legible ∧ rest <:+ cs := by
  simp only [inclusion?, Option.bind_eq_bind, Option.bind_eq_some_iff, Option.some.injEq, Prod.mk.injEq] at h
  obtain ⟨⟨name, a⟩, ha, b, hb, rfl, rfl⟩ := h
  exact ⟨trivial, by grind⟩

theorem ofOption_eq_ok {found : Option (MarkupDecl × List Char)} {m : MarkupDecl} :
    ofOption found = .ok (m, rest) ↔ found = some (m, rest) := by
  cases found <;> simp [ofOption]

theorem next_legible {m : MarkupDecl} (hcs : Xml.Legible cs) (h : next cs = .ok (m, rest)) :
    m.Legible ∧ rest <:+ cs := by
  unfold next at h
  split at h
  · obtain ⟨hm, hrest⟩ := inclusion?_legible (ofOption_eq_ok.mp h)
    exact ⟨hm, by grind⟩
  · obtain ⟨⟨target, content, a⟩, ha, h⟩ := Outcome.bind_eq_ok.mp h
    cases h
    exact ⟨trivial, by grind⟩
  · obtain ⟨⟨content, a⟩, ha, h⟩ := Outcome.bind_eq_ok.mp h
    cases h
    exact ⟨trivial, by grind⟩
  · rename_i inner _
    have hinner : inner <:+ '<' :: '!' :: inner := by grind
    have hword : ∀ {word : String} {a : List Char}, after? word inner = some a → a <:+ '<' :: '!' :: inner :=
      fun h => (after?_suffix h).trans hinner
    split at h
    · have ha := hword ‹after? "ENTITY" inner = some _›
      obtain ⟨hm, hrest⟩ := entity?_legible (hcs.of_suffix ha) (ofOption_eq_ok.mp h)
      exact ⟨hm, hrest.trans ha⟩
    · have ha := hword ‹after? "ATTLIST" inner = some _›
      obtain ⟨hm, hrest⟩ := attributes?_legible (hcs.of_suffix ha) (ofOption_eq_ok.mp h)
      exact ⟨hm, hrest.trans ha⟩
    · have ha := hword ‹after? "ELEMENT" inner = some _›
      obtain ⟨hm, hrest⟩ := elementType?_legible (ofOption_eq_ok.mp h)
      exact ⟨hm, hrest.trans ha⟩
    · have ha := hword ‹after? "NOTATION" inner = some _›
      obtain ⟨hm, hrest⟩ := notationDecl?_legible (ofOption_eq_ok.mp h)
      exact ⟨hm, hrest.trans ha⟩
    · cases h
  · cases h

theorem readFrom_legible : ∀ {fuel : Nat} {done ms : List MarkupDecl} {cs rest : List Char},
    (∀ m ∈ done, m.Legible) → Xml.Legible cs → readFrom fuel done cs = .ok (ms, rest) →
    (∀ m ∈ ms, m.Legible) ∧ rest <:+ cs
  | 0, _, _, _, _, _, _, h => by cases h
  | fuel + 1, done, ms, cs, rest, hdone, hcs, h => by
    have hspace := skipSpace_suffix cs
    unfold readFrom at h
    split at h
    · cases h
      exact ⟨by simpa using hdone, List.nil_suffix⟩
    · cases h
      exact ⟨by simpa using hdone, by grind⟩
    · obtain ⟨⟨m, a⟩, ha, h⟩ := Outcome.bind_eq_ok.mp h
      obtain ⟨hm, ha⟩ := next_legible (hcs.of_suffix hspace) ha
      have ha := ha.trans hspace
      obtain ⟨hms, hrest⟩ := readFrom_legible (List.forall_mem_cons.mpr ⟨hm, hdone⟩) (hcs.of_suffix ha) h
      exact ⟨hms, hrest.trans ha⟩

theorem readFrom_nil_legible {fuel : Nat} {ms : List MarkupDecl} (hcs : Xml.Legible cs)
    (h : readFrom fuel [] cs = .ok (ms, rest)) : (∀ m ∈ ms, m.Legible) ∧ rest <:+ cs :=
  readFrom_legible (fun _ hm => absurd hm List.not_mem_nil) hcs h

end MarkupDecl

namespace DoctypeDecl

theorem readSubset_legible {ms : List MarkupDecl} (hcs : Legible cs) (h : readSubset cs = .ok (ms, rest)) :
    (∀ m ∈ ms, m.Legible) ∧ rest <:+ cs := by
  unfold readSubset at h
  split at h
  · rename_i inner
    have hinner := List.suffix_cons '[' inner
    obtain ⟨⟨found, a⟩, ha, h⟩ := Outcome.bind_eq_ok.mp h
    obtain ⟨hms, ha⟩ := MarkupDecl.readFrom_nil_legible (hcs.of_suffix hinner) ha
    split at h
    · rename_i heq
      cases heq
      cases h
      exact ⟨hms, by grind⟩
    · cases h
  · cases h
    exact ⟨fun _ hm => absurd hm List.not_mem_nil, List.suffix_rfl⟩

theorem head?_suffix {name : String} {hasExternal : Bool} (h : head? cs = some (name, hasExternal, rest)) :
    rest <:+ cs := by
  simp only [head?, Option.bind_eq_bind, Option.bind_eq_some_iff, Option.some.injEq, Prod.mk.injEq] at h
  obtain ⟨a, ha, ⟨n, b⟩, hb, ⟨e, d⟩, hd, -, -, rfl⟩ := h
  have hd' : d <:+ skipSpace b := by
    unfold external? at hd
    split at hd
    · simp only [Option.map_eq_some_iff, Prod.mk.injEq] at hd
      grind
    · grind
  grind

/-- **A document type brings in no characters that its document cannot hold.** -/
theorem read_legible {d : DoctypeDecl} (hcs : Legible cs) (h : read cs = .ok (d, rest)) :
    (∀ m ∈ d.subset, m.Legible) ∧ rest <:+ cs := by
  unfold read at h
  split at h
  · cases h
  · rename_i hhead
    have hhead := head?_suffix hhead
    obtain ⟨⟨ms, a⟩, ha, h⟩ := Outcome.bind_eq_ok.mp h
    obtain ⟨hms, ha⟩ := readSubset_legible (hcs.of_suffix hhead) ha
    split at h
    · rename_i heq
      cases heq
      cases h
      exact ⟨hms, by grind⟩
    · cases h

end DoctypeDecl

end XmlShape.Xml
