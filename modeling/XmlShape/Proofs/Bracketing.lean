import XmlShape.Proofs.Joining
import XmlShape.Proofs.Paths

/-! # Absorbing in any bracketing

A summary is padded with absences before or after its counts, and this padding commutes with
absorbing. So absorbing is associative as long as no count is negative, and the summaries of a corpus
may be absorbed in any bracketing (`absorb_monoid_laws`). -/

namespace XmlShape

namespace AttributeSummary

theorem combine_assoc (a b c : AttributeSummary) : (a.combine b).combine c = a.combine (b.combine c) := by
  have hv : (a.values.union b.values).union c.values = a.values.union (b.values.union c.values) :=
    ValueSet.ext_mem fun v => by simp only [ValueSet.mem_union, or_assoc]
  rw [combine, combine, combine, combine, hv, Int.add_assoc]

def joining : Joining AttributeSummary.name where
  join := joined
  new := id
  key_join a b := by cases b <;> rfl
  key_new _ := rfl

theorem combineAll_eq_merge (as bs : List AttributeSummary) : combineAll as bs = joining.merge as bs := by
  rw [combineAll_eq, Joining.merge_eq, joining, List.map_id]
  rfl

theorem combineAll_assoc (as bs cs : List AttributeSummary) :
    combineAll (combineAll as bs) cs = combineAll as (combineAll bs cs) := by
  simp only [combineAll_eq_merge]
  refine Joining.merge_assoc fun a b c _ _ _ => ?_
  cases a with
  | none =>
    cases b with
    | none => cases c <;> rfl
    | some b => rfl
  | some a =>
    cases b with
    | none => cases c <;> rfl
    | some b =>
      cases c with
      | none => rfl
      | some c => exact congrArg some (combine_assoc a b c)

theorem combineAll_nil (as : List AttributeSummary) : combineAll as [] = as := by
  rw [combineAll_eq_merge, Joining.merge_nil]
  exact List.map_id' as

theorem nil_combineAll (as : List AttributeSummary) : combineAll [] as = as := by
  rw [combineAll_eq_merge, Joining.nil_merge]
  exact List.map_id as

end AttributeSummary

namespace Summary

/-! ## Padding -/

@[simp] theorem total_absences (n : Int) : total (absences n) = 0 := by
  rw [absences]
  generalize n.toNat = k
  induction k with
  | zero => rfl
  | succ k ih => rw [List.replicate_succ, total, ih]; rfl

theorem absences_add {m n : Int} (hm : 0 ≤ m) (hn : 0 ≤ n) : absences (m + n) = absences m ++ absences n := by
  rw [absences, Int.toNat_add hm hn, List.replicate_add]
  rfl

section
variable (n : Int) (s t : Summary)

theorem absentBefore_zero : s.absentBefore 0 = s := by
  cases s; rfl

theorem absentAfter_zero : s.absentAfter 0 = s := by
  cases s
  exact congrArg (fun cs => Summary.mk _ cs _ _ _ _) (List.append_nil _)

@[simp] theorem instances_absentBefore : (s.absentBefore n).instances = s.instances := by
  rw [instances, absentBefore, total_append, total_absences, Int.zero_add]
  rfl

@[simp] theorem instances_absentAfter : (s.absentAfter n).instances = s.instances := by
  rw [instances, absentAfter, total_append, total_absences, Int.add_zero]
  rfl

@[simp] theorem instances_absorb : (s.absorb t).instances = s.instances + t.instances := by
  rw [absorb_eq, instances, total_append]
  rfl

theorem absorb_absentAfter : s.absorb (t.absentAfter n) = (s.absorb t).absentAfter n := by
  rw [absorb_eq, absorb_eq, instances_absentAfter, absentAfter, absentAfter, List.append_assoc]

theorem absentBefore_absorb : (s.absentBefore n).absorb t = (s.absorb t).absentBefore n := by
  rw [absorb_eq, absorb_eq, instances_absentBefore, absentBefore, absentBefore, List.append_assoc]

theorem absentAfter_absorb : (s.absentAfter n).absorb t = s.absorb (t.absentBefore n) := by
  rw [absorb_eq, absorb_eq, instances_absentAfter, instances_absentBefore, absentAfter, absentBefore,
    List.append_assoc]

theorem absentAfter_absentBefore (m : Int) :
    (s.absentBefore m).absentAfter n = (s.absentAfter n).absentBefore m := by
  rw [absentAfter, absentAfter, absentBefore, absentBefore, List.append_assoc]

variable {n} {m : Int} (hm : 0 ≤ m) (hn : 0 ≤ n)
include hm hn

theorem absentAfter_add : s.absentAfter (m + n) = (s.absentAfter m).absentAfter n := by
  rw [absentAfter, absentAfter, absentAfter, absences_add hm hn, List.append_assoc]

theorem absentBefore_add : s.absentBefore (m + n) = (s.absentBefore n).absentBefore m := by
  rw [absentBefore, absentBefore, absentBefore, absences_add hm hn, List.append_assoc]

end

/-! ## Associativity -/

inductive NonNegative : Summary → Prop
  | intro {s : Summary} : (∀ n ∈ s.counts, 0 ≤ n) → (∀ c ∈ s.children, NonNegative c) → NonNegative s

theorem NonNegative.counts {s : Summary} : NonNegative s → ∀ n ∈ s.counts, 0 ≤ n
  | .intro h _ => h

theorem NonNegative.children {s : Summary} : NonNegative s → ∀ c ∈ s.children, NonNegative c
  | .intro _ h => h

theorem NonNegative.instances {s : Summary} (h : NonNegative s) : 0 ≤ s.instances :=
  total_nonneg h.counts

def joining (mine theirs : Int) : Joining Summary.name where
  join := joined theirs
  new := absentBefore mine
  key_join s t := by
    cases t with
    | none => rfl
    | some t => rw [joined, absorb_eq]
  key_new _ := rfl

theorem absorb_eq_merge (s t : Summary) :
    s.absorb t =
      ⟨s.name, s.counts ++ t.counts, s.mixed || t.mixed, s.texts ++ t.texts,
        AttributeSummary.combineAll s.attributes t.attributes,
        (joining s.instances t.instances).merge s.children t.children⟩ :=
  absorb_eq s t

/-- What three summaries have under one name: any of the three may lack it. -/
theorem atName_assoc {x y z : Option Summary}
    (h : ∀ a ∈ x, ∀ b ∈ y, ∀ c ∈ z, (a.absorb b).absorb c = a.absorb (b.absorb c)) {k m n : Int} (hk : 0 ≤ k)
    (hm : 0 ≤ m) (hn : 0 ≤ n) :
    (joining (k + m) n).atName ((joining k m).atName x y) z =
      (joining k (m + n)).atName x ((joining m n).atName y z) := by
  cases x with
  | some a =>
    cases y with
    | some b =>
      cases z with
      | some c => exact congrArg some (h a rfl b rfl c rfl)
      | none => exact congrArg some (absorb_absentAfter n a b).symm
    | none =>
      cases z with
      | some c => exact congrArg some (absentAfter_absorb m a c)
      | none => exact congrArg some (absentAfter_add a hm hn).symm
  | none =>
    cases y with
    | some b =>
      cases z with
      | some c => exact congrArg some (absentBefore_absorb k b c)
      | none => exact congrArg some (absentAfter_absentBefore n b k)
    | none =>
      cases z with
      | some c => exact congrArg some (absentBefore_add c hk hm)
      | none => rfl

theorem absorb_assoc {a : Summary} (ha : NonNegative a) : ∀ {b c : Summary}, NonNegative b → NonNegative c →
    (a.absorb b).absorb c = a.absorb (b.absorb c) := by
  induction ha with
  | @intro a hcounts hchildren ih =>
    intro b c hb hc
    have hchild : (joining (a.instances + b.instances) c.instances).merge
          ((joining a.instances b.instances).merge a.children b.children) c.children =
        (joining a.instances (b.instances + c.instances)).merge a.children
          ((joining b.instances c.instances).merge b.children c.children) := by
      -- where all three have a child, by induction on the first summary
      refine Joining.merge_assoc fun x y z hx hy hz => ?_
      refine atName_assoc (fun s hs t ht u hu => ?_) (total_nonneg hcounts) hb.instances hc.instances
      exact ih s (hx s hs) (hb.children t (hy t ht)) (hc.children u (hz u hu))
    rw [absorb_eq_merge (a.absorb b), absorb_eq_merge a (b.absorb c), instances_absorb, instances_absorb,
      absorb_eq_merge a b, absorb_eq_merge b c]
    simp only [List.append_assoc, Bool.or_assoc, AttributeSummary.combineAll_assoc, hchild]

theorem empty_absorb (s : Summary) : (empty s.name).absorb s = s := by
  have hchildren : (joining 0 s.instances).merge [] s.children = s.children := by
    rw [Joining.nil_merge]
    exact List.map_id'' absentBefore_zero _
  calc (empty s.name).absorb s
      = ⟨s.name, s.counts, s.mixed, s.texts, AttributeSummary.combineAll [] s.attributes,
          (joining 0 s.instances).merge [] s.children⟩ := absorb_eq_merge (empty s.name) s
    _ = s := by
      rw [hchildren, AttributeSummary.nil_combineAll]
      cases s; rfl

theorem absorb_empty (s : Summary) (name : String) : s.absorb (empty name) = s := by
  have hchildren : (joining s.instances 0).merge s.children [] = s.children := by
    rw [Joining.merge_nil]
    exact List.map_id'' absentAfter_zero _
  calc s.absorb (empty name)
      = ⟨s.name, s.counts ++ [], s.mixed || false, s.texts ++ [], AttributeSummary.combineAll s.attributes [],
          (joining s.instances 0).merge s.children []⟩ := absorb_eq_merge s (empty name)
    _ = s := by
      rw [hchildren, AttributeSummary.combineAll_nil, List.append_nil, List.append_nil, Bool.or_false]
      cases s; rfl

/-! ## Bracketings -/

theorem nonneg_absences (n : Int) : ∀ k ∈ absences n, 0 ≤ k := by
  intro k hk
  exact Int.le_of_eq (List.mem_replicate.mp hk).2.symm

section
variable {s : Summary} (hs : NonNegative s) (n : Int)
include hs

theorem NonNegative.absentAfter : NonNegative (s.absentAfter n) :=
  .intro (fun k hk => (List.mem_append.mp hk).elim (hs.counts k) (nonneg_absences n k)) hs.children

theorem NonNegative.absentBefore : NonNegative (s.absentBefore n) :=
  .intro (fun k hk => (List.mem_append.mp hk).elim (nonneg_absences n k) (hs.counts k)) hs.children

end

theorem NonNegative.absorb {s : Summary} (hs : NonNegative s) :
    ∀ {t : Summary}, NonNegative t → NonNegative (s.absorb t) := by
  induction hs with
  | @intro s hcounts hchildren ih =>
    intro t ht
    rw [absorb_eq_merge]
    refine .intro (fun k hk => (List.mem_append.mp hk).elim (hcounts k) (ht.counts k)) fun c hc => ?_
    rcases Joining.mem_merge _ _ _ hc with ⟨x, hx, y, hy, rfl⟩ | ⟨y, hy, rfl⟩
    · cases y with
      | some y => exact ih x hx (ht.children y (hy y rfl))
      | none => exact (hchildren x hx).absentAfter _
    · exact (ht.children y hy).absentBefore _

inductive Bracketing where
  | single (s : Summary)
  | pair (first second : Bracketing)

namespace Bracketing

def parts : Bracketing → List Summary
  | single s => [s]
  | pair b c => b.parts ++ c.parts

def value : Bracketing → Summary
  | single s => s
  | pair b c => b.value.absorb c.value

theorem nonNegative_value : ∀ b : Bracketing, (∀ s ∈ b.parts, NonNegative s) → NonNegative b.value
  | single s, h => h s (List.mem_singleton_self s)
  | pair b c, h =>
    (b.nonNegative_value fun s hs => h s (List.mem_append_left _ hs)).absorb
      (c.nonNegative_value fun s hs => h s (List.mem_append_right _ hs))

theorem head?_parts : ∀ b : Bracketing, b.parts.head?.map (·.name) = some b.value.name
  | single s => rfl
  | pair b c => by
    have hb := b.head?_parts
    obtain ⟨s, hs, hn⟩ := Option.map_eq_some_iff.mp hb
    rw [parts, value, absorb_eq, List.head?_append, hs]
    exact congrArg some hn

/-- Absorbing what is in brackets is absorbing its parts one after the other. -/
theorem absorb_value : ∀ (b : Bracketing) {s : Summary}, NonNegative s → (∀ t ∈ b.parts, NonNegative t) →
    s.absorb b.value = b.parts.foldl absorb s
  | single _, _, _, _ => rfl
  | pair b c, s, hs, h => by
    have hb : ∀ t ∈ b.parts, NonNegative t := fun t ht => h t (List.mem_append_left _ ht)
    have hc : ∀ t ∈ c.parts, NonNegative t := fun t ht => h t (List.mem_append_right _ ht)
    rw [value, parts, List.foldl_append, ← b.absorb_value hs hb,
      ← c.absorb_value (hs.absorb (b.nonNegative_value hb)) hc,
      absorb_assoc hs (b.nonNegative_value hb) (c.nonNegative_value hc)]

theorem value_eq (b : Bracketing) (h : ∀ s ∈ b.parts, NonNegative s) :
    b.value = b.parts.foldl absorb (empty b.value.name) := by
  have hempty : NonNegative (empty b.value.name) := .intro (by simp [empty]) (by simp [empty])
  rw [← b.absorb_value hempty h, empty_absorb]

end Bracketing

/-! ## Corpora -/

theorem nonNegative_gather (name : String) (counts : List Int) (es : List Element) (h : ∀ n ∈ counts, 0 ≤ n) :
    NonNegative (gather name counts es) := by
  rw [gather_eq]
  refine .intro h fun c hc => ?_
  obtain ⟨n, hn, rfl⟩ := List.mem_map.mp hc
  have hn := List.mem_eraseDups.mp hn
  exact nonNegative_gather n _ _ (Element.nonneg_childCounts n es)
termination_by Element.sizeAll es
decreasing_by exact Element.sizeAll_childrenNamed_lt hn

theorem nonNegative_ofDocument (root : Element) : NonNegative (ofDocument root) := by
  rw [ofDocument_eq]
  exact nonNegative_gather _ _ _ (by simp)

theorem foldl_absorb_ofDocument (name : String) : ∀ fs es : List Element, (∀ f ∈ fs, f.name = name) →
    (fs.map ofDocument).foldl absorb (gather name (List.replicate es.length 1) es) =
      gather name (List.replicate (es ++ fs).length 1) (es ++ fs)
  | [], es, _ => by rw [List.append_nil]; rfl
  | f :: fs, es, h => by
    have ih := foldl_absorb_ofDocument name fs (es ++ [f]) fun g hg => h g (List.mem_cons_of_mem f hg)
    rw [List.append_assoc, List.length_append, List.replicate_add] at ih
    rw [List.map_cons, List.foldl_cons, ofDocument_eq,
      absorb_gather _ _ _ _ _ _ (total_replicate_one _) (by rfl)]
    exact ih

theorem gatherRoots_eq_foldl (roots : List Element) (name : String) :
    gatherRoots roots name = ((Element.named name roots).map ofDocument).foldl absorb (empty name) := by
  have h := foldl_absorb_ofDocument name (Element.named name roots) [] fun e he => (Element.mem_named.mp he).2
  have h0 : gather name (List.replicate ([] : List Element).length 1) [] = empty name := by
    rw [gather_eq]; rfl
  rw [h0] at h
  exact h.symm

/-- **Absorbing is a monoid operation** on summaries without negative counts: it is associative, and the
summary of nothing is its unit. So the documents of a corpus may be absorbed in any bracketing. -/
theorem absorb_monoid_laws :
    (∀ a b c : Summary, NonNegative a → NonNegative b → NonNegative c →
      (a.absorb b).absorb c = a.absorb (b.absorb c)) ∧
    (∀ a : Summary, (empty a.name).absorb a = a ∧ a.absorb (empty a.name) = a) ∧
    (∀ b c : Bracketing, (∀ s ∈ b.parts, NonNegative s) → b.parts = c.parts → b.value = c.value) ∧
    ∀ (roots : List Element) (name : String) (b : Bracketing),
      b.parts = (Element.named name roots).map ofDocument → find? (ofDocuments roots) name = some b.value := by
  refine ⟨fun a b c ha hb hc => absorb_assoc ha hb hc, fun a => ⟨empty_absorb a, absorb_empty a _⟩,
    fun b c hb hbc => ?_, fun roots name b hb => ?_⟩
  · have hname : some b.value.name = some c.value.name := by
      rw [← b.head?_parts, ← c.head?_parts, hbc]
    rw [b.value_eq hb, c.value_eq (hbc ▸ hb), Option.some.inj hname, hbc]
  · have hnonneg : ∀ s ∈ b.parts, NonNegative s := by
      intro s hs
      rw [hb] at hs
      obtain ⟨e, -, rfl⟩ := List.mem_map.mp hs
      exact nonNegative_ofDocument e
    obtain ⟨s, hs, hn⟩ := Option.map_eq_some_iff.mp b.head?_parts
    have hmem : s ∈ b.parts := List.mem_of_head? hs
    rw [hb] at hmem
    obtain ⟨e, he, rfl⟩ := List.mem_map.mp hmem
    have hname : b.value.name = name := by
      rw [← hn, ofDocument_eq, name_gather, (Element.mem_named.mp he).2]
    rw [find?_ofDocuments, if_neg (List.ne_nil_of_mem he), b.value_eq hnonneg, hname, hb, gatherRoots_eq_foldl]

/-- Three documents, each of which has a child that the ones before it lack. -/
theorem absorb_monoid_laws_late :
    let x : Element := ⟨"r", [], [], "t", []⟩
    let y : Element := ⟨"r", [], [⟨"c", [], [], "", []⟩, ⟨"c", [], [], "", []⟩], "", []⟩
    let z : Element := ⟨"r", [], [⟨"d", [("k", "1")], [], "", []⟩], "", []⟩
    let (a, b, c) := (ofDocument x, ofDocument y, ofDocument z)
    (a.absorb b).absorb c = a.absorb (b.absorb c) ∧
      (Bracketing.pair (.single a) (.pair (.single b) (.single c))).value =
        (Bracketing.pair (.pair (.single a) (.single b)) (.single c)).value ∧
      find? (ofDocuments [x, y, z]) "r" = some (a.absorb (b.absorb c)) := by
  intro x y z
  obtain ⟨hassoc, -, hbracketing, hcorpus⟩ := absorb_monoid_laws
  refine ⟨hassoc _ _ _ (nonNegative_ofDocument x) (nonNegative_ofDocument y) (nonNegative_ofDocument z),
    hbracketing _ _ ?_ rfl,
    hcorpus [x, y, z] "r" (.pair (.single (ofDocument x)) (.pair (.single (ofDocument y)) (.single (ofDocument z)))) rfl⟩
  simp only [Bracketing.parts, List.cons_append, List.nil_append, List.forall_mem_cons]
  exact ⟨nonNegative_ofDocument x, nonNegative_ofDocument y, nonNegative_ofDocument z, by simp⟩

end Summary

end XmlShape
