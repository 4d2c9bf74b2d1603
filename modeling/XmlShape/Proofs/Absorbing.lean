import XmlShape.Proofs.Bracketing
import XmlShape.Proofs.Conservation
import XmlShape.Proofs.Names

/-! # What absorbing leaves at each path

A summary that absorbs another has at each path what the two had there, one after the other, and an absence
for each parent that lacked it (`descend?_absorb`). This holds of any two summaries in which names are
distinct, so nothing is lost and nothing is counted twice (`absorb_unites`). -/

namespace XmlShape

namespace AttributeSummary

theorem find?_combineAll (as bs : List AttributeSummary) (name : String) :
    find? (combineAll as bs) name = joining.atName (find? as name) (find? bs name) := by
  rw [combineAll_eq_merge]
  exact joining.find?_merge as bs name

end AttributeSummary

namespace Summary

open Session (descend?)

/-! ## Paths -/

def instancesAbove (s : Summary) (path : List String) : Int :=
  ((descend? s path.dropLast).map instances).getD 0

theorem descend?_cons (s : Summary) (n : String) (path : List String) :
    descend? s (n :: path) = (s.child? n).bind fun c => descend? c path :=
  rfl

theorem descend?_of_children {s t : Summary} (h : s.children = t.children) {path : List String} (hpath : path ≠ []) :
    descend? s path = descend? t path := by
  cases path with
  | nil => exact absurd rfl hpath
  | cons n path => rw [descend?_cons, descend?_cons, child?, child?, h]

theorem instancesAbove_cons (s : Summary) (n : String) {path : List String} (hpath : path ≠ []) :
    s.instancesAbove (n :: path) = ((s.child? n).map fun c => c.instancesAbove path).getD 0 := by
  rw [instancesAbove, List.dropLast_cons_of_ne_nil hpath, descend?_cons]
  cases s.child? n <;> rfl

theorem child?_absorb (s t : Summary) (n : String) :
    (s.absorb t).child? n = (joining s.instances t.instances).atName (s.child? n) (t.child? n) := by
  rw [absorb_eq_merge]
  exact Joining.find?_merge _ _ _ n

theorem atName_left (mine : Int) (x : Option Summary) : (joining mine 0).atName x none = x := by
  cases x with
  | none => rfl
  | some s => exact congrArg some (absentAfter_zero s)

theorem atName_right (theirs : Int) (y : Option Summary) : (joining 0 theirs).atName none y = y := by
  cases y with
  | none => rfl
  | some t => exact congrArg some (absentBefore_zero t)

/-- **Path by path.** What stands at a path is joined as children of one name are, with as many absences as
there are parents. -/
theorem descend?_absorb : ∀ (path : List String) (s t : Summary),
    descend? (s.absorb t) path =
      (joining (s.instancesAbove path) (t.instancesAbove path)).atName (descend? s path) (descend? t path)
  | [], s, t => rfl
  | [n], s, t => by
    have hend : ∀ u : Summary, descend? u [n] = u.child? n := fun u => Option.bind_fun_some _
    rw [hend, hend, hend]
    exact child?_absorb s t n
  | n :: m :: path, s, t => by
    have hpath : m :: path ≠ [] := List.cons_ne_nil m path
    rw [descend?_cons, descend?_cons, descend?_cons, child?_absorb, instancesAbove_cons s n hpath,
      instancesAbove_cons t n hpath]
    cases s.child? n with
    | some c =>
      cases t.child? n with
      | some d => exact descend?_absorb (m :: path) c d
      | none =>
        -- a child that only one side has keeps all that is below it
        exact (descend?_of_children rfl hpath).trans (atName_left _ _).symm
    | none =>
      cases t.child? n with
      | some d => exact (descend?_of_children rfl hpath).trans (atName_right _ _).symm
      | none => rfl

/-! ## What is joined -/

def known (x : Option Summary) : Summary :=
  x.getD (empty "")

/-- The counts of a place below as many parents; each of them lacks it if there is no summary. -/
def countsUnder (parents : Int) : Option Summary → List Int
  | some s => s.counts
  | none => absences parents

def attribute? (s : Summary) (name : String) : Option AttributeSummary :=
  AttributeSummary.find? s.attributes name

/-- What `u` says when it unites `x` and `y`, of which one may be missing, below `mine` and `theirs` parents. -/
structure Unites (mine theirs : Int) (x y : Option Summary) (u : Summary) : Prop where
  counts : u.counts = countsUnder mine x ++ countsUnder theirs y
  instances : u.instances = (known x).instances + (known y).instances
  texts : u.texts = (known x).texts ++ (known y).texts
  mixed : u.mixed = ((known x).mixed || (known y).mixed)
  /-- The attributes of the first in their order, then the new ones of the second in theirs. -/
  attributes : u.attributes.map (·.name) = (known x).attributes.map (·.name) ++
    ((known y).attributes.map (·.name)).filter fun n => !((known x).attributes.map (·.name)).contains n
  values : ∀ name v, (∃ a ∈ u.attribute? name, v ∈ a.values) ↔
    (∃ a ∈ (known x).attribute? name, v ∈ a.values) ∨ ∃ a ∈ (known y).attribute? name, v ∈ a.values
  count : ∀ name, ((u.attribute? name).map (·.count)).getD 0 =
    (((known x).attribute? name).map (·.count)).getD 0 + (((known y).attribute? name).map (·.count)).getD 0
  children : u.children.map (·.name) = (known x).children.map (·.name) ++
    ((known y).children.map (·.name)).filter fun n => !((known x).children.map (·.name)).contains n

theorem attribute?_absorb (s t : Summary) (name : String) :
    (s.absorb t).attribute? name = AttributeSummary.joining.atName (s.attribute? name) (t.attribute? name) := by
  rw [attribute?, absorb_eq]
  exact AttributeSummary.find?_combineAll _ _ name

theorem unites_absorb (mine theirs : Int) (s t : Summary) : Unites mine theirs (some s) (some t) (s.absorb t) := by
  have hfields := absorb_eq_merge s t
  exact
    { counts := by rw [hfields]; rfl
      instances := instances_absorb s t
      texts := by rw [hfields]; rfl
      mixed := by rw [hfields]; rfl
      attributes := by
        rw [hfields, AttributeSummary.combineAll_eq_merge]
        exact Joining.map_key_merge _ _ _
      values := fun name v => by
        rw [attribute?_absorb, known, known, Option.getD_some, Option.getD_some]
        cases s.attribute? name <;> cases t.attribute? name <;>
          simp [Joining.atName, AttributeSummary.joining, AttributeSummary.joined, AttributeSummary.combine,
            ValueSet.mem_union]
      count := fun name => by
        rw [attribute?_absorb, known, known, Option.getD_some, Option.getD_some]
        cases s.attribute? name <;> cases t.attribute? name <;>
          simp [Joining.atName, AttributeSummary.joining, AttributeSummary.joined, AttributeSummary.combine]
      children := by
        rw [hfields]
        exact Joining.map_key_merge _ _ _ }

theorem unites_absentAfter (mine theirs : Int) (s : Summary) :
    Unites mine theirs (some s) none (s.absentAfter theirs) where
  counts := rfl
  instances := by rw [instances_absentAfter]; exact (Int.add_zero _).symm
  texts := (List.append_nil _).symm
  mixed := (Bool.or_false _).symm
  attributes := (List.append_nil _).symm
  values name v := by simp [known, empty, attribute?, AttributeSummary.find?, absentAfter]
  count name := by simp [known, empty, attribute?, AttributeSummary.find?, absentAfter]
  children := (List.append_nil _).symm

theorem unites_absentBefore (mine theirs : Int) (t : Summary) :
    Unites mine theirs none (some t) (t.absentBefore mine) where
  counts := rfl
  instances := by rw [instances_absentBefore]; exact (Int.zero_add _).symm
  texts := rfl
  mixed := rfl
  attributes := by simp [known, empty, absentBefore]
  values name v := by simp [known, empty, attribute?, AttributeSummary.find?, absentBefore]
  count name := by simp [known, empty, attribute?, AttributeSummary.find?, absentBefore]
  children := by simp [known, empty, absentBefore]

theorem unites_atName {mine theirs : Int} {x y : Option Summary} {u : Summary}
    (h : (joining mine theirs).atName x y = some u) : Unites mine theirs x y u := by
  cases x with
  | some s =>
    cases y with
    | some t =>
      cases h
      exact unites_absorb mine theirs s t
    | none =>
      cases h
      exact unites_absentAfter mine theirs s
  | none =>
    cases y with
    | some t =>
      cases h
      exact unites_absentBefore mine theirs t
    | none => cases h

theorem isSome_atName (mine theirs : Int) (x y : Option Summary) :
    ((joining mine theirs).atName x y).isSome ↔ x.isSome ∨ y.isSome := by
  cases x <;> cases y <;> simp [Joining.atName]

/-! ## Distinct names -/

theorem Keyed.absorb {s : Summary} (hs : Keyed s) : ∀ {t : Summary}, Keyed t → Keyed (s.absorb t) := by
  induction hs with
  | @intro s hnames hattributes hchildren ih =>
    rintro t ⟨hnames', hattributes', hchildren'⟩
    rw [absorb_eq_merge, AttributeSummary.combineAll_eq_merge]
    refine .intro (Joining.nodup_map_key_merge _ hnames hnames')
      (Joining.nodup_map_key_merge _ hattributes hattributes') fun c hc => ?_
    have hpad : ∀ {c d : Summary}, Keyed c → d.children = c.children → d.attributes = c.attributes → Keyed d := by
      rintro c d ⟨h, h', h''⟩ hch hat
      exact .intro (hch ▸ h) (hat ▸ h') (hch ▸ h'')
    rcases Joining.mem_merge _ _ _ hc with ⟨x, hx, y, hy, rfl⟩ | ⟨y, hy, rfl⟩
    · cases y with
      | some y => exact ih x hx (hchildren' y (hy y rfl))
      | none => exact hpad (hchildren x hx) rfl rfl
    · exact hpad (hchildren' y hy) rfl rfl

/-! ## Sizes -/

theorem size_of_children {s t : Summary} (hinstances : s.instances = t.instances)
    (hchildren : s.children = t.children) :
    s.size = t.size := by
  rw [size_eq, size_eq, hinstances, hchildren]

theorem total_map_add {α : Type} (f g : α → Int) (xs : List α) :
    total (xs.map fun x => f x + g x) = total (xs.map f) + total (xs.map g) := by
  induction xs with
  | nil => rfl
  | cons x xs ih =>
    simp only [List.map_cons, total, ih]
    omega

theorem total_map_option {α β : Type} (f : α → Option β) (g : β → Int) (xs : List α) :
    total (xs.map fun x => ((f x).map g).getD 0) = total ((xs.filterMap f).map g) := by
  induction xs with
  | nil => rfl
  | cons x xs ih =>
    rw [List.map_cons, total, ih, List.filterMap_cons]
    cases f x with
    | none => exact Int.zero_add _
    | some b => rfl

theorem total_map_filter {α : Type} (f : α → Int) (p : α → Bool) (xs : List α) :
    total ((xs.filter p).map f) + total ((xs.filter fun x => !p x).map f) = total (xs.map f) := by
  rw [← total_append, ← List.map_append]
  exact total_perm ((List.filter_append_perm p xs).map f)

/-- **Nothing is lost and nothing is counted twice.** -/
theorem size_absorb {s : Summary} (hs : Keyed s) : ∀ {t : Summary}, Keyed t → (s.absorb t).size = s.size + t.size := by
  induction hs with
  | @intro s hnames _ _ ih =>
    rintro t ⟨hnames', -, hchildren'⟩
    let theirs (c : Summary) : Option Summary := t.children.find? fun d => d.name == c.name
    have hjoin : ∀ c ∈ s.children, ((joining s.instances t.instances).join c (theirs c)).size =
        c.size + ((theirs c).map size).getD 0 := by
      intro c hc
      cases hd : theirs c with
      | some d => exact ih c hc (hchildren' d (List.mem_of_find?_eq_some hd))
      | none => exact (size_of_children (instances_absentAfter _ _) rfl).trans (Int.add_zero _).symm
    have hnew : ∀ d, ((joining s.instances t.instances).new d).size = d.size := fun d =>
      size_of_children (instances_absentBefore _ _) rfl
    -- the children of the second are those with a counterpart in the first and the new ones
    have hsplit := total_map_filter size (fun d => s.children.any fun c => c.name == d.name) t.children
    have hshared : total ((s.children.filterMap theirs).map size) =
        total ((t.children.filter fun d => s.children.any fun c => c.name == d.name).map size) :=
      total_perm ((Joining.filterMap_find?_perm hnames hnames').map size)
    rw [size_eq, instances_absorb, absorb_eq_merge, Joining.map_merge, total_append, List.map_congr_left hjoin,
      List.map_congr_left fun d _ => hnew d, total_map_add, total_map_option, size_eq s, size_eq t]
    omega

/-! ## Both together -/

theorem NonNegative.descend? : ∀ {path : List String} {s t : Summary}, NonNegative s →
    Session.descend? s path = some t → NonNegative t
  | [], s, t, hs, h => by
    cases h
    exact hs
  | n :: path, s, t, hs, h => by
    obtain ⟨c, hc, h⟩ := Option.bind_eq_some_iff.mp h
    exact NonNegative.descend? (hs.children c (List.mem_of_find?_eq_some hc)) h

/-- Where no count is negative, there are as many absences as instances of the parent. -/
theorem length_absences_instancesAbove {s : Summary} (hs : NonNegative s) (path : List String) :
    ((absences (s.instancesAbove path)).length : Int) = s.instancesAbove path := by
  have hnonneg : 0 ≤ s.instancesAbove path := by
    unfold instancesAbove
    cases hparent : descend? s path.dropLast with
    | none => exact Int.le_refl 0
    | some parent => exact (hs.descend? hparent).instances
  rw [absences, List.length_replicate, Int.toNat_of_nonneg hnonneg]

/-- **Absorbing unites two summaries at every path.** A path leads somewhere if it did so in one of the two,
and what stands there says what the two said there, with an absence for each instance of a parent that lacked
it. The names are distinct again, and the elements are those of both. -/
theorem absorb_unites {a b : Summary} (ha : Keyed a) (hb : Keyed b) (hna : NonNegative a) (hnb : NonNegative b) :
    (a.absorb b).name = a.name ∧ Keyed (a.absorb b) ∧
    (∀ path, (descend? (a.absorb b) path).isSome ↔ (descend? a path).isSome ∨ (descend? b path).isSome) ∧
    (∀ path u, descend? (a.absorb b) path = some u →
      Unites (a.instancesAbove path) (b.instancesAbove path) (descend? a path) (descend? b path) u) ∧
    (∀ path, ((absences (a.instancesAbove path)).length : Int) = a.instancesAbove path ∧
      ((absences (b.instancesAbove path)).length : Int) = b.instancesAbove path) ∧
    (a.absorb b).size = a.size + b.size := by
  refine ⟨by rw [absorb_eq], ha.absorb hb, fun path => ?_, fun path u hu => ?_, fun path => ?_, size_absorb ha hb⟩
  · rw [descend?_absorb]
    exact isSome_atName _ _ _ _
  · rw [descend?_absorb] at hu
    exact unites_atName hu
  · exact ⟨length_absences_instancesAbove hna path, length_absences_instancesAbove hnb path⟩

/-- The second of two summaries brings a child with one of its own, and repeats another child. -/
theorem absorb_unites_late :
    let leaf (name : String) (counts : List Int) : Summary := ⟨name, counts, false, [], [], []⟩
    let a : Summary := ⟨"r", [2], false, ["x"], [⟨"k", ValueSet.ofList ["1"], 2⟩], [leaf "b" [1, 0]]⟩
    let b : Summary := ⟨"r", [1, 0], false, [], [⟨"k", ValueSet.ofList ["2"], 1⟩],
      [⟨"c", [3], false, [], [], [leaf "d" [0, 1, 0]]⟩, leaf "b" [4]]⟩
    (∃ u, descend? (a.absorb b) ["c"] = some u ∧ u.counts = [0, 0, 3]) ∧
      (∃ u, descend? (a.absorb b) ["c", "d"] = some u ∧ u.counts = [0, 1, 0]) ∧
      (∃ u, descend? (a.absorb b) ["b"] = some u ∧ u.counts = [1, 0, 4]) ∧
      (a.absorb b).children.map (·.name) = ["b", "c"] ∧ (a.absorb b).size = 12 := by
  intro leaf a b
  have hleaf : ∀ name counts, (∀ n ∈ counts, 0 ≤ n) → Keyed (leaf name counts) ∧ NonNegative (leaf name counts) :=
    fun _ _ h => ⟨.intro (by simp [leaf]) (by simp [leaf]) (by simp [leaf]), .intro h (by simp [leaf])⟩
  have hfirst := hleaf "b" [1, 0] (by decide)
  have hsecond := hleaf "b" [4] (by decide)
  have hbelow := hleaf "d" [0, 1, 0] (by decide)
  have ha : Keyed a ∧ NonNegative a :=
    ⟨.intro (by decide) (by decide) (by simpa [a] using hfirst.1), .intro (by decide) (by simpa [a] using hfirst.2)⟩
  have hb : Keyed b ∧ NonNegative b := by
    refine ⟨.intro (by decide) (by decide) ?_, .intro (by decide) ?_⟩
    · simp only [b, List.forall_mem_cons]
      exact ⟨.intro (by decide) (by decide) (by simpa using hbelow.1), hsecond.1, by simp⟩
    · simp only [b, List.forall_mem_cons]
      exact ⟨.intro (by decide) (by simpa using hbelow.2), hsecond.2, by simp⟩
  obtain ⟨-, -, hsome, hunites, -, hsize⟩ := absorb_unites ha.1 hb.1 ha.2 hb.2
  have hcounts : ∀ path counts, (descend? b path).isSome →
      countsUnder (a.instancesAbove path) (descend? a path) ++ countsUnder (b.instancesAbove path) (descend? b path) =
        counts → ∃ u, descend? (a.absorb b) path = some u ∧ u.counts = counts := by
    rintro path counts hpath rfl
    obtain ⟨u, hu⟩ := Option.isSome_iff_exists.mp ((hsome path).mpr (.inr hpath))
    exact ⟨u, hu, (hunites path u hu).counts⟩
  exact ⟨hcounts ["c"] _ rfl rfl, hcounts ["c", "d"] _ rfl rfl, hcounts ["b"] _ rfl rfl,
    (hunites [] _ rfl).children, hsize⟩

end Summary

end XmlShape
