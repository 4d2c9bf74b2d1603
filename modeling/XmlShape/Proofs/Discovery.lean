import Mathlib.Data.List.Nodup
import XmlShape.Proofs.Outcomes
import XmlShape.Proofs.Saving
import XmlShape.Proofs.Tally

/-! # XML files in a directory

What stands under an XML name in a directory or one level below is found once, the directory's own entries first,
and every path found leads to its entry (`finds_named`), as long as the system lets it be seen (`Open`). The entries
are not told apart: a directory with such a name is found like a file, so only where there is none are the files
found and nothing else. -/

namespace XmlShape

/-! ## Paths and their texts -/

namespace Path

/-- A name that can stand between slashes and counts for something there. -/
structure IsPart (name : String) : Prop where
  ne_empty : name ≠ ""
  ne_dot : name ≠ "."
  slashless : '/' ∉ name.toList

instance (name : String) : Decidable (IsPart name) :=
  decidable_of_iff (name ≠ "" ∧ name ≠ "." ∧ '/' ∉ name.toList)
    ⟨fun ⟨hempty, hdot, hslash⟩ => ⟨hempty, hdot, hslash⟩, fun h => ⟨h.ne_empty, h.ne_dot, h.slashless⟩⟩

structure Normal (p : Path) : Prop where
  root : p.root = "" ∨ p.root = "/" ∨ p.root = "//"
  parts : ∀ n ∈ p.parts, IsPart n

theorem splitSlashes_slash {cs : List Char} (h : '/' ∉ cs) (pending rest : List Char) :
    splitSlashes pending (cs ++ '/' :: rest) = String.ofList (pending.reverse ++ cs) :: splitSlashes [] rest := by
  induction cs generalizing pending with
  | nil => simp [splitSlashes]
  | cons c cs ih =>
    obtain ⟨hc, hcs⟩ := List.ne_and_not_mem_of_not_mem_cons h
    rw [List.cons_append, splitSlashes, if_neg (Ne.symm hc), ih hcs]
    simp

theorem splitSlashes_slashless {cs : List Char} (h : '/' ∉ cs) (pending : List Char) :
    splitSlashes pending cs = [String.ofList (pending.reverse ++ cs)] := by
  induction cs generalizing pending with
  | nil => simp [splitSlashes]
  | cons c cs ih =>
    obtain ⟨hc, hcs⟩ := List.ne_and_not_mem_of_not_mem_cons h
    rw [splitSlashes, if_neg (Ne.symm hc), ih hcs]
    simp

theorem slashless_of_mem_splitSlashes {n : String} : ∀ {cs pending : List Char}, '/' ∉ pending →
    n ∈ splitSlashes pending cs → '/' ∉ n.toList
  | [], pending, hpending, hn => by
    rw [splitSlashes, List.mem_singleton] at hn
    simpa [hn] using hpending
  | c :: cs, pending, hpending, hn => by
    rw [splitSlashes] at hn
    split at hn
    · rcases List.mem_cons.mp hn with rfl | hn
      · simpa using hpending
      · exact slashless_of_mem_splitSlashes (by simp) hn
    · rename_i hc
      refine slashless_of_mem_splitSlashes (fun hmem => ?_) hn
      rcases List.mem_cons.mp hmem with heq | hmem
      · exact hc heq.symm
      · exact hpending hmem

theorem splitSlashes_intercalate : ∀ {n : String} {ns : List String}, (∀ m ∈ n :: ns, IsPart m) →
    splitSlashes [] ("/".intercalate (n :: ns)).toList = n :: ns
  | n, [], h => by
    rw [String.intercalate_singleton, splitSlashes_slashless (h n (List.mem_cons_self ..)).slashless]
    simp
  | n, m :: ns, h => by
    obtain ⟨hn, hns⟩ := List.forall_mem_cons.mp h
    have hlist : ("/".intercalate (n :: m :: ns)).toList = n.toList ++ '/' :: ("/".intercalate (m :: ns)).toList := by
      simp [String.toList_intercalate]
    rw [hlist, splitSlashes_slash hn.slashless, splitSlashes_intercalate hns]
    simp

theorem normal_ofString (s : String) : (ofString s).Normal := by
  constructor
  · rw [ofString]
    unfold rootOf
    split <;> simp
  · intro n hn
    obtain ⟨hn, hcounts⟩ := List.mem_filter.mp hn
    simp only [Bool.and_eq_true, bne_iff_ne] at hcounts
    exact ⟨hcounts.1, hcounts.2, slashless_of_mem_splitSlashes (by simp) hn⟩

/-- The text of names that count begins with no slash. -/
theorem rootOf_intercalate {ns : List String} (h : ∀ n ∈ ns, IsPart n) :
    rootOf ("/".intercalate ns).toList = "" ∧ rootOf ('/' :: ("/".intercalate ns).toList) = "/" ∧
      rootOf ('/' :: '/' :: ("/".intercalate ns).toList) = "//" := by
  cases ns with
  | nil => simp [rootOf]
  | cons n ns =>
    have hn := h n (List.mem_cons_self ..)
    obtain ⟨c, cs, hcs⟩ := List.exists_cons_of_ne_nil (String.toList_eq_nil_iff.not.mpr hn.ne_empty)
    have hc : c ≠ '/' := by
      rintro rfl
      exact hn.slashless (hcs ▸ List.mem_cons_self ..)
    have hfirst : ∃ ds, ("/".intercalate (n :: ns)).toList = c :: ds := by
      cases ns <;> simp [String.toList_intercalate, hcs]
    obtain ⟨ds, hds⟩ := hfirst
    rw [hds]
    simp [rootOf, hc]

/-- A path can be read back from its text. -/
theorem ofString_text {p : Path} (h : p.Normal) : ofString p.text = p := by
  obtain ⟨root, parts⟩ := p
  have hcounts : parts.filter (fun p => p != "" && p != ".") = parts :=
    List.filter_eq_self.mpr fun n hn => by simp [(h.parts n hn).ne_empty, (h.parts n hn).ne_dot]
  have hsplit : (splitSlashes [] ("/".intercalate parts).toList).filter (fun p => p != "" && p != ".") = parts := by
    cases parts with
    | nil => simp [splitSlashes]
    | cons n ns => rw [splitSlashes_intercalate h.parts, hcounts]
  obtain ⟨hnone, hone, htwo⟩ := rootOf_intercalate h.parts
  have hslash : ∀ cs, splitSlashes [] ('/' :: cs) = "" :: splitSlashes [] cs :=
    splitSlashes_slash List.not_mem_nil []
  rcases h.root with rfl | rfl | rfl
  · cases parts with
    | nil => rfl
    | cons n ns => simp only [text, ofString, List.isEmpty_cons, Bool.and_false, Bool.false_eq_true, if_false,
        String.empty_append, hnone, hsplit]
  · have htext : (text ⟨"/", parts⟩).toList = '/' :: ("/".intercalate parts).toList := by
      simp [text, String.toList_append]
    simp only [ofString, htext, hone, hslash, List.filter_cons, hsplit]
    rfl
  · have htext : (text ⟨"//", parts⟩).toList = '/' :: '/' :: ("/".intercalate parts).toList := by
      simp [text, String.toList_append]
    simp only [ofString, htext, htwo, hslash, List.filter_cons, hsplit]
    rfl

theorem text_injective {p q : Path} (hp : p.Normal) (hq : q.Normal) (h : p.text = q.text) : p = q := by
  rw [← ofString_text hp, h, ofString_text hq]

def below (p : Path) (names : List String) : Path :=
  { p with parts := p.parts ++ names }

theorem Normal.below {p : Path} (h : p.Normal) {names : List String} (hnames : ∀ n ∈ names, IsPart n) :
    (p.below names).Normal :=
  ⟨h.root, List.forall_mem_append.mpr ⟨h.parts, hnames⟩⟩

end Path

namespace FileTree

/-! ## Trees as a file system has them -/

/-- Every name in the tree is a part of paths that leads down. -/
inductive Wellformed : FileTree → Prop
  | file {data : ByteArray} : Wellformed (file data)
  | directory {es : List (String × FileTree)} : (∀ e ∈ es, Path.IsPart e.1 ∧ e.1 ≠ "..") →
      (∀ e ∈ es, Wellformed e.2) → Wellformed (directory es)

theorem mem_of_find? {es : List (String × FileTree)} {name : String} {u : FileTree} (h : find? es name = some u) :
    (name, u) ∈ es := by
  obtain ⟨⟨n, v⟩, hfind, rfl⟩ := Option.map_eq_some_iff.mp h
  have hname : n = name := by simpa using List.find?_some hfind
  exact hname ▸ List.mem_of_find?_eq_some hfind

theorem exists_find? {es : List (String × FileTree)} {e : String × FileTree} (h : e ∈ es) :
    ∃ u, find? es e.1 = some u := by
  have hsome : (es.find? fun d => d.1 == e.1).isSome := List.find?_isSome.mpr ⟨e, h, by simp⟩
  obtain ⟨d, hd⟩ := Option.isSome_iff_exists.mp hsome
  exact ⟨d.2, by rw [find?, hd]; rfl⟩

theorem Wellformed.find? {es : List (String × FileTree)} (h : Wellformed (.directory es)) {name : String} {u : FileTree}
    (hu : FileTree.find? es name = some u) : (Path.IsPart name ∧ name ≠ "..") ∧ u.Wellformed := by
  cases h with
  | directory hnames hes => exact ⟨hnames _ (mem_of_find? hu), hes _ (mem_of_find? hu)⟩

theorem Wellformed.get? : ∀ {names : List String} {t u : FileTree}, t.Wellformed → t.get? names = some u → u.Wellformed
  | [], t, u, ht, h => by
    rw [get?_nil] at h
    cases h
    exact ht
  | name :: names, t, u, ht, h => by
    rw [get?_cons] at h
    obtain ⟨v, hv, hbelow⟩ := Option.bind_eq_some_iff.mp h
    obtain ⟨es, rfl⟩ := entries_of_find? hv
    exact Wellformed.get? (ht.find? hv).2 hbelow

theorem mem_filesOf {es : List (String × FileTree)} {e : String × FileTree} (he : e ∈ es) {above : Path}
    {f : String × ByteArray} (hf : f ∈ e.2.files (above.child e.1)) : f ∈ filesOf above es := by
  induction es with
  | nil => cases he
  | cons d es ih =>
    rw [filesOf, List.mem_append]
    rcases List.mem_cons.mp he with rfl | he
    · exact .inl hf
    · exact .inr (ih he)

theorem exists_mem_files {data : ByteArray} : ∀ {names : List String} {t : FileTree} (above : Path),
    t.get? names = some (file data) → ∃ path, (path, data) ∈ t.files above
  | [], t, above, h => by
    rw [get?_nil] at h
    cases h
    exact ⟨above.text, List.mem_singleton_self _⟩
  | name :: names, t, above, h => by
    rw [get?_cons] at h
    obtain ⟨u, hu, hbelow⟩ := Option.bind_eq_some_iff.mp h
    obtain ⟨es, rfl⟩ := entries_of_find? hu
    obtain ⟨path, hpath⟩ := exists_mem_files (above.child name) hbelow
    exact ⟨path, mem_filesOf (mem_of_find? hu) hpath⟩

end FileTree

namespace FileSystem

open FileTree

/-! ## Paths that go further -/

section
variable {s : FileSystem} {place : List String}

theorem walk_append (ps qs : List String) :
    s.walk place (ps ++ qs) = (s.walk place ps).bind fun there => s.walk there qs := by
  fun_induction walk s place ps with
  | case1 place => rfl
  | case2 place name names hnone => rw [List.cons_append, walk, hnone]; rfl
  | case3 place name names data hfile => rw [List.cons_append, walk, hfile]; rfl
  | case4 place name names es hes kind hrefused =>
    rw [List.cons_append, walk, hes]
    simp only [hrefused]
    rfl
  | case5 place name names es hes hopen ih => rw [List.cons_append, walk_cons (names ++ qs) hes hopen, ih]

/-- The names of what stands below a directory lead there, if each may be looked up. -/
theorem walk_down : ∀ {names place : List String} {t u : FileTree}, s.top.get? place = some t → t.Wellformed →
    t.get? names = some u →
    (∀ above name, above ++ [name] <+: names → s.refuses (.enter (place ++ above) name) = none) →
    s.walk place names = .ok (place ++ names)
  | [], place, _, _, _, _, _, _ => by rw [walk, List.append_nil]
  | name :: names, place, t, u, ht, hwell, hu, hopen => by
    rw [get?_cons] at hu
    obtain ⟨v, hv, hbelow⟩ := Option.bind_eq_some_iff.mp hu
    obtain ⟨es, rfl⟩ := entries_of_find? hv
    obtain ⟨hname, hvwell⟩ := hwell.find? hv
    have hplace : s.top.get? (place ++ [name]) = some v := by
      rw [get?_append, ht, Option.bind_some, get?_cons, hv, Option.bind_some, get?_nil]
    have hrest := walk_down hplace hvwell hbelow fun above other hprefix => by
      rw [List.append_assoc]
      exact hopen (name :: above) other (List.cons_prefix_cons.mpr ⟨rfl, hprefix⟩)
    have hfirst := hopen [] name (List.cons_prefix_cons.mpr ⟨rfl, List.nil_prefix⟩)
    rw [List.append_nil] at hfirst
    rw [walk_cons names ht hfirst, if_neg hname.2, hrest, List.append_assoc, List.singleton_append]

/-- What a path leads to has such names as the whole tree. -/
theorem wellformed_of_lookup {p : Path} {t : FileTree} (hs : s.top.Wellformed) (h : s.lookup p = .ok (place, t)) :
    t.Wellformed :=
  hs.get? (exists_of_lookup h).2

end

structure Grants (s : FileSystem) (p : Path) (place names : List String) : Prop where
  follow : s.refuses (.follow (p.below names)) = none
  enter : ∀ above name, names = above ++ [name] → s.refuses (.enter (place ++ above) name) = none
  list : s.refuses (.list (place ++ names)) = none
  read : s.refuses (.read (place ++ names)) = none

/-- The system tells what a path leads to, and if that is a directory, all that stands in it or in a directory right
below it. -/
structure Open (s : FileSystem) (p : Path) : Prop where
  way : ∀ kind, s.lookup p = .error kind → kind.isAbsence = true
  below : ∀ place t names u, s.lookup p = .ok (place, t) → names.length ≤ 2 → t.get? names = some u →
    s.Grants p place names

section
variable {s : FileSystem} (h : ∀ r, s.refuses r = none) {kind : FileErrorKind}
include h

theorem isAbsence_of_walk {place names : List String} (hkind : s.walk place names = .error kind) :
    kind.isAbsence = true := by
  fun_induction walk s place names with
  | case1 place => cases hkind
  | case2 place name names hnone =>
    cases hkind
    rfl
  | case3 place name names data hfile =>
    cases hkind
    rfl
  | case4 place name names es hes kind hrefused =>
    rw [h] at hrefused
    cases hrefused
  | case5 place name names es hes hopen ih => exact ih hkind

theorem isAbsence_of_locate {p : Path} (hkind : s.locate p = .error kind) : kind.isAbsence = true := by
  unfold locate at hkind
  split at hkind
  · rename_i hrefused
    rw [h] at hrefused
    cases hrefused
  · exact isAbsence_of_walk h hkind
  · cases hkind
    rfl

theorem isAbsence_of_lookup {p : Path} (hkind : s.lookup p = .error kind) : kind.isAbsence = true := by
  unfold lookup at hkind
  split at hkind
  · cases hkind
    exact isAbsence_of_locate h ‹_›
  · split at hkind
    · cases hkind
    · cases hkind
      rfl

/-- Where nothing is refused, everything is told. -/
theorem open_of_forall (p : Path) : s.Open p :=
  ⟨fun _ hkind => isAbsence_of_lookup h hkind, fun _ _ _ _ _ _ _ => ⟨h _, fun _ _ _ => h _, h _, h _⟩⟩

end

section
variable {s : FileSystem} {p : Path} {place : List String} {t : FileTree} (hopen : s.Open p)
  (hlookup : s.lookup p = .ok (place, t)) (hwell : t.Wellformed)
include hopen hlookup hwell

/-- A path leads on from a directory to what is below it. -/
theorem lookup_below {names : List String} {u : FileTree} (hlength : names.length ≤ 2) (hu : t.get? names = some u) :
    s.lookup (p.below names) = .ok (place ++ names, u) := by
  obtain ⟨hlocate, ht⟩ := exists_of_lookup hlookup
  obtain ⟨-, ⟨es, hes⟩, hwalk⟩ := exists_of_locate hlocate
  have hstart : s.start (p.below names) = s.start p := rfl
  have hdown : s.walk place names = .ok (place ++ names) := by
    refine walk_down ht hwell hu fun above name ⟨rest, hrest⟩ => ?_
    subst hrest
    rw [get?_append] at hu
    obtain ⟨v, hv, -⟩ := Option.bind_eq_some_iff.mp hu
    refine (hopen.below place t _ v hlookup ?_ hv).enter above name rfl
    rw [List.length_append] at hlength
    omega
  have hfollow := (hopen.below place t names u hlookup hlength hu).follow
  have hbelow : s.locate (p.below names) = .ok (place ++ names) := by
    simp only [locate, hfollow, hstart, hes]
    rw [Path.below, walk_append, hwalk]
    exact hdown
  have hget : s.top.get? (place ++ names) = some u := by
    rw [get?_append, ht, Option.bind_some, hu]
  exact lookup_of_locate hbelow hget

theorem sight_file {names : List String} {data : ByteArray} (hlength : names.length ≤ 2)
    (hu : t.get? names = some (file data)) : s.sight (p.below names) = .ok .file := by
  simp only [sight, lookup_below hopen hlookup hwell hlength hu]

theorem sight_directory {names : List String} {es : List (String × FileTree)} (hlength : names.length ≤ 2)
    (hu : t.get? names = some (directory es)) :
    s.sight (p.below names) = .ok (.directory (.ok (es.map (·.1)))) := by
  have hlist := (hopen.below place t names _ hlookup hlength hu).list
  simp only [sight, lookup_below hopen hlookup hwell hlength hu, hlist]

end

end FileSystem

/-! ## Places -/

namespace FileTree

/-- Something of the kind stands under a name of an XML file, in a directory or in one right below it. -/
inductive Named (kind : FileTree → Prop) (es : List (String × FileTree)) : List String → Prop
  | here {name : String} {u : FileTree} : find? es name = some u → kind u → ".xml".toList <:+ name.toList →
      Named kind es [name]
  | below {dir name : String} {fs : List (String × FileTree)} {u : FileTree} : find? es dir = some (directory fs) →
      find? fs name = some u → kind u → ".xml".toList <:+ name.toList → Named kind es [dir, name]

/-- The order in which places are found: those in the directory, and then one directory below it after the other,
all by their names. -/
inductive Precedes : List String → List String → Prop
  | here {m n : String} : m < n → Precedes [m] [n]
  | outside {m dir n : String} : Precedes [m] [dir, n]
  | within {dir m n : String} : m < n → Precedes [dir, m] [dir, n]
  | directories {dir other m n : String} : dir < other → Precedes [dir, m] [other, n]

theorem Precedes.ne {names others : List String} (h : Precedes names others) : names ≠ others := by
  intro heq
  cases h with
  | here hlt | within hlt =>
    simp only [List.cons.injEq, and_true, true_and] at heq
    exact String.lt_irrefl _ (heq ▸ hlt)
  | outside => cases heq
  | directories hlt => exact String.lt_irrefl _ ((List.cons.inj heq).1 ▸ hlt)

def xmlNames (es : List (String × FileTree)) : List String :=
  Discovery.ascending ((es.map (·.1)).filter Discovery.isXmlName)

def placesBelow (es : List (String × FileTree)) (dir : String) : List (List String) :=
  (xmlNames (((find? es dir).map entries).getD [])).map fun name => [dir, name]

def placesIn (es : List (String × FileTree)) : List (List String) :=
  (xmlNames es).map (fun name => [name]) ++ (Discovery.ascending (es.map (·.1))).flatMap (placesBelow es)

theorem isXmlName_iff {name : String} : Discovery.isXmlName name = true ↔ ".xml".toList <:+ name.toList := by
  rw [Discovery.isXmlName, List.isPrefixOf_iff_prefix, List.reverse_prefix]

theorem mem_names {es : List (String × FileTree)} {name : String} :
    name ∈ es.map (·.1) ↔ ∃ u, find? es name = some u := by
  refine ⟨fun h => ?_, fun ⟨u, hu⟩ => List.mem_map.mpr ⟨_, mem_of_find? hu, rfl⟩⟩
  obtain ⟨e, he, rfl⟩ := List.mem_map.mp h
  exact exists_find? he

theorem mem_xmlNames {es : List (String × FileTree)} {name : String} :
    name ∈ xmlNames es ↔ (∃ u, find? es name = some u) ∧ ".xml".toList <:+ name.toList := by
  have hmem : name ∈ xmlNames es ↔ name ∈ (es.map (·.1)).filter Discovery.isXmlName := ValueSet.mem_ofList
  rw [hmem, List.mem_filter, isXmlName_iff, mem_names]

theorem mem_placesBelow {es : List (String × FileTree)} {dir : String} {names : List String} :
    names ∈ placesBelow es dir ↔ ∃ fs name, find? es dir = some (directory fs) ∧ name ∈ xmlNames fs ∧
      names = [dir, name] := by
  rw [placesBelow, List.mem_map]
  constructor
  · rintro ⟨name, hname, rfl⟩
    obtain ⟨⟨u, hu⟩, -⟩ := mem_xmlNames.mp hname
    cases hdir : find? es dir with
    | none =>
      rw [hdir] at hu
      cases hu
    | some v =>
      rw [hdir] at hname hu
      obtain ⟨fs, rfl⟩ := entries_of_find? hu
      exact ⟨fs, name, rfl, hname, rfl⟩
  · rintro ⟨fs, name, hdir, hname, rfl⟩
    rw [hdir]
    exact ⟨name, hname, rfl⟩

theorem mem_placesIn {es : List (String × FileTree)} {names : List String} :
    names ∈ placesIn es ↔ Named (fun _ => True) es names := by
  rw [placesIn, List.mem_append, List.mem_map, List.mem_flatMap]
  constructor
  · rintro (⟨name, hname, rfl⟩ | ⟨dir, -, hnames⟩)
    · obtain ⟨⟨u, hu⟩, hxml⟩ := mem_xmlNames.mp hname
      exact .here hu trivial hxml
    · obtain ⟨fs, name, hdir, hname, rfl⟩ := mem_placesBelow.mp hnames
      obtain ⟨⟨u, hu⟩, hxml⟩ := mem_xmlNames.mp hname
      exact .below hdir hu trivial hxml
  · intro h
    cases h with
    | here hu _ hxml => exact .inl ⟨_, mem_xmlNames.mpr ⟨⟨_, hu⟩, hxml⟩, rfl⟩
    | below hdir hu _ hxml =>
      refine .inr ⟨_, ?_, mem_placesBelow.mpr ⟨_, _, hdir, mem_xmlNames.mpr ⟨⟨_, hu⟩, hxml⟩, rfl⟩⟩
      exact ValueSet.mem_ofList.mpr (mem_names.mpr ⟨_, hdir⟩)

theorem pairwise_placesIn (es : List (String × FileTree)) : (placesIn es).Pairwise Precedes := by
  have hascending : ∀ fs, (xmlNames fs).Pairwise (· < ·) := fun fs => (ValueSet.ofList _).ascending
  rw [placesIn, List.pairwise_append, List.pairwise_map, List.pairwise_flatMap]
  refine ⟨(hascending es).imp .here, ⟨fun dir _ => ?_, ?_⟩, fun names hnames others hothers => ?_⟩
  · rw [placesBelow, List.pairwise_map]
    exact (hascending _).imp .within
  · refine (ValueSet.ofList _).ascending.imp fun hlt names hnames others hothers => ?_
    obtain ⟨_, _, -, -, rfl⟩ := mem_placesBelow.mp hnames
    obtain ⟨_, _, -, -, rfl⟩ := mem_placesBelow.mp hothers
    exact .directories hlt
  · obtain ⟨_, -, rfl⟩ := List.mem_map.mp hnames
    obtain ⟨_, -, hothers⟩ := List.mem_flatMap.mp hothers
    obtain ⟨_, _, -, -, rfl⟩ := mem_placesBelow.mp hothers
    exact .outside

section
variable {kind : FileTree → Prop} {es : List (String × FileTree)} {names : List String}

theorem Named.imp {other : FileTree → Prop} (h : Named kind es names) (hkind : ∀ u, kind u → other u) :
    Named other es names := by
  cases h with
  | here hu hk hxml => exact .here hu (hkind _ hk) hxml
  | below hdir hu hk hxml => exact .below hdir hu (hkind _ hk) hxml

theorem Named.get? (h : Named kind es names) : ∃ u, (directory es).get? names = some u ∧ kind u := by
  cases h with
  | @here name u hu hk =>
    refine ⟨u, ?_, hk⟩
    rw [get?_cons, entries, hu, Option.bind_some, get?_nil]
  | @below dir name fs u hdir hu hk =>
    refine ⟨u, ?_, hk⟩
    rw [get?_cons, entries, hdir, Option.bind_some, get?_cons, entries, hu, Option.bind_some, get?_nil]

theorem Named.length_le (h : Named kind es names) : names.length ≤ 2 := by
  cases h <;> simp

theorem Named.isPart (h : Named kind es names) (hes : (directory es).Wellformed) : ∀ n ∈ names, Path.IsPart n := by
  cases h with
  | here hu => simpa using (hes.find? hu).1.1
  | below hdir hu =>
    obtain ⟨hpart, hfs⟩ := hes.find? hdir
    simpa using ⟨hpart.1, (hfs.find? hu).1.1⟩

end

def IsFile (u : FileTree) : Prop :=
  ∃ data, u = file data

def IsDirectory (u : FileTree) : Prop :=
  ∃ es, u = directory es

theorem Named.isFile {es : List (String × FileTree)} {names : List String} (h : Named (fun _ => True) es names)
    (hnone : ¬ Named IsDirectory es names) : Named IsFile es names := by
  cases h with
  | @here name u hu _ hxml =>
    cases u with
    | file data => exact .here hu ⟨data, rfl⟩ hxml
    | directory fs => exact absurd (.here hu ⟨fs, rfl⟩ hxml) hnone
  | @below dir name fs u hdir hu _ hxml =>
    cases u with
    | file data => exact .below hdir hu ⟨data, rfl⟩ hxml
    | directory gs => exact absurd (.below hdir hu ⟨gs, rfl⟩ hxml) hnone

end FileTree

/-! ## Discovery -/

namespace FileSystem

open FileTree

def HasDirectory (s : FileSystem) (path : String) : Prop :=
  ∃ place es, s.lookup (Path.ofString path) = .ok (place, directory es)

section
variable {s : FileSystem} {path : String}

theorem discover_of_sight_error {kind : FileErrorKind} (h : s.lookup (Path.ofString path) = .error kind) :
    s.discover path = .error (if kind.isAbsence then .notADirectory else .failed ⟨kind, Path.ofString path⟩) := by
  simp only [discover, Discovery.discover, sight, h]

theorem discover_of_file {place : List String} {data : ByteArray}
    (h : s.lookup (Path.ofString path) = .ok (place, file data)) : s.discover path = .error .notADirectory := by
  simp only [discover, Discovery.discover, sight, h]

theorem exists_sight_of_directory (h : s.HasDirectory path) :
    ∃ listed, s.sight (Path.ofString path) = .ok (.directory listed) := by
  obtain ⟨place, es, hlookup⟩ := h
  simp only [sight, hlookup]
  split
  · exact ⟨_, rfl⟩
  · exact ⟨_, rfl⟩

theorem discover_ne_notADirectory (h : s.HasDirectory path) : s.discover path ≠ .error .notADirectory := by
  obtain ⟨listed, hsight⟩ := exists_sight_of_directory h
  intro hnone
  cases listed with
  | error kind =>
    simp only [discover, Discovery.discover, hsight] at hnone
    cases hnone
  | ok names =>
    simp only [discover, Discovery.discover, hsight] at hnone
    split at hnone
    · cases hnone
    · cases hnone

/-- Unless discovery fails, a directory is missed just where the path leads to none. -/
theorem discover_eq_notADirectory (h : ∀ e, s.discover path ≠ .error (.failed e)) :
    s.discover path = .error .notADirectory ↔ ¬ s.HasDirectory path := by
  refine ⟨fun hnone hdir => discover_ne_notADirectory hdir hnone, fun hnone => ?_⟩
  cases hlookup : s.lookup (Path.ofString path) with
  | error kind =>
    have hdiscover := discover_of_sight_error hlookup
    split at hdiscover
    · exact hdiscover
    · exact absurd hdiscover (h _)
  | ok found =>
    obtain ⟨place, t⟩ := found
    cases t with
    | file data => exact discover_of_file hlookup
    | directory es => exact absurd ⟨place, es, hlookup⟩ hnone

end

/-- The paths found in a directory with the entries `es`: those of the places named there, each once and in order,
and each leads to an entry of the kind. -/
structure Discovers (kind : FileTree → Prop) (s : FileSystem) (p : Path) (es : List (String × FileTree))
    (found : List String) : Prop where
  places : ∃ places : List (List String), places.Pairwise Precedes ∧
    (∀ names, names ∈ places ↔ Named kind es names) ∧ found = places.map fun names => (p.below names).text
  distinct : found.Nodup
  leads : ∀ path ∈ found, ∃ place u, s.lookup (Path.ofString path) = .ok (place, u) ∧ kind u

/-- Nothing is found just where the path leads to no directory; in a directory the places of the kind are. -/
def Finds (kind : FileTree → Prop) (s : FileSystem) (path : String) : Prop :=
  (s.discover path = .error .notADirectory ↔ ¬ s.HasDirectory path) ∧
    ∀ place es, s.lookup (Path.ofString path) = .ok (place, directory es) →
      ∃ found, s.discover path = .ok found ∧ Discovers kind s (Path.ofString path) es found

section
variable {s : FileSystem} {p : Path} {place : List String} {es : List (String × FileTree)} (hopen : s.Open p)
  (hlookup : s.lookup p = .ok (place, directory es)) (hwell : (directory es).Wellformed)
include hopen hlookup hwell

theorem below_of_entry {dir : String} (hdir : dir ∈ es.map (·.1)) :
    Discovery.below s.sight (p.child dir) = .ok ((placesBelow es dir).map fun names => (p.below names).text) := by
  obtain ⟨u, hu⟩ := mem_names.mp hdir
  have hget : (directory es).get? [dir] = some u := by
    rw [get?_cons, entries, hu, Option.bind_some, get?_nil]
  have hchild : p.child dir = p.below [dir] := rfl
  have hpaths : ∀ name : String, (p.child dir).child name = p.below [dir, name] := fun name => by
    simp [Path.child, Path.below]
  cases u with
  | file data =>
    rw [hchild, Discovery.below, sight_file hopen hlookup hwell (by simp) hget, placesBelow, hu]
    rfl
  | directory fs =>
    rw [placesBelow, hu, List.map_map, hchild, Discovery.below, sight_directory hopen hlookup hwell (by simp) hget,
      ← hchild]
    exact congrArg Except.ok (List.map_congr_left fun name _ => congrArg Path.text (hpaths name))

end

theorem discover_of_directory {s : FileSystem} {path : String} {place : List String} {es : List (String × FileTree)}
    (hopen : s.Open (Path.ofString path)) (hlookup : s.lookup (Path.ofString path) = .ok (place, directory es))
    (hwell : (directory es).Wellformed) :
    s.discover path = .ok ((placesIn es).map fun names => ((Path.ofString path).below names).text) := by
  have hsight : s.sight (Path.ofString path) = .ok (.directory (.ok (es.map (·.1)))) := by
    have hself : s.sight ((Path.ofString path).below []) = .ok (.directory (.ok (es.map (·.1)))) :=
      sight_directory hopen hlookup hwell (by simp) (get?_nil _)
    rwa [Path.below, List.append_nil] at hself
  have hbelow : (Discovery.ascending (es.map (·.1))).mapM (fun dir =>
        Discovery.below s.sight ((Path.ofString path).child dir)) =
      .ok ((Discovery.ascending (es.map (·.1))).map fun dir =>
        (placesBelow es dir).map fun names => ((Path.ofString path).below names).text) :=
    Outcome.mapM_eq_ok fun dir hdir => below_of_entry hopen hlookup hwell (ValueSet.mem_ofList.mp hdir)
  simp only [discover, Discovery.discover, hsight, hbelow]
  rw [placesIn, List.map_append, List.map_map, List.map_flatMap, List.flatMap_def]
  rfl

theorem discovers_placesIn {kind : FileTree → Prop} {s : FileSystem} {p : Path} {place : List String}
    {es : List (String × FileTree)} (hp : p.Normal) (hopen : s.Open p)
    (hlookup : s.lookup p = .ok (place, directory es)) (hwell : (directory es).Wellformed)
    (hkind : ∀ names, Named (fun _ => True) es names → Named kind es names) :
    Discovers kind s p es ((placesIn es).map fun names => (p.below names).text) := by
  have hnamed : ∀ names, names ∈ placesIn es ↔ Named kind es names := fun names =>
    mem_placesIn.trans ⟨hkind names, fun h => h.imp fun _ _ => trivial⟩
  have hnormal : ∀ names ∈ placesIn es, (p.below names).Normal := fun names h =>
    hp.below (((hnamed names).mp h).isPart hwell)
  refine ⟨⟨placesIn es, pairwise_placesIn es, hnamed, rfl⟩, ?_, fun path hpath => ?_⟩
  · refine List.Nodup.map_on (fun names h others h' heq => ?_) ((pairwise_placesIn es).imp Precedes.ne)
    have hsame := Path.text_injective (hnormal names h) (hnormal others h') heq
    exact List.append_cancel_left (congrArg Path.parts hsame)
  · obtain ⟨names, hnames, rfl⟩ := List.mem_map.mp hpath
    have hname := (hnamed names).mp hnames
    obtain ⟨u, hu, hk⟩ := hname.get?
    rw [Path.ofString_text (hnormal names hnames)]
    exact ⟨_, u, lookup_below hopen hlookup hwell hname.length_le hu, hk⟩

section
variable {s : FileSystem} (hs : s.top.Wellformed) {path : String} (hopen : s.Open (Path.ofString path))
include hs hopen

theorem finds_of_named {kind : FileTree → Prop}
    (hkind : ∀ place es, s.lookup (Path.ofString path) = .ok (place, directory es) →
      ∀ names, Named (fun _ => True) es names → Named kind es names) : Finds kind s path := by
  have hdirectory : ∀ place es, s.lookup (Path.ofString path) = .ok (place, directory es) →
      ∃ found, s.discover path = .ok found ∧ Discovers kind s (Path.ofString path) es found :=
    fun place es hes => ⟨_, discover_of_directory hopen hes (wellformed_of_lookup hs hes),
      discovers_placesIn (Path.normal_ofString path) hopen hes (wellformed_of_lookup hs hes) (hkind place es hes)⟩
  refine ⟨discover_eq_notADirectory fun e hfailed => ?_, hdirectory⟩
  -- the system tells what the path leads to, and a directory is listed
  cases hlookup : s.lookup (Path.ofString path) with
  | error kind =>
    have hdiscover := discover_of_sight_error hlookup
    rw [hopen.way kind hlookup, if_pos rfl, hfailed] at hdiscover
    cases hdiscover
  | ok found =>
    obtain ⟨place, t⟩ := found
    cases t with
    | file data => cases hfailed.symm.trans (discover_of_file hlookup)
    | directory es =>
      obtain ⟨found, hfound, -⟩ := hdirectory place es hlookup
      cases hfailed.symm.trans hfound

/-- Every file that is found can be read. -/
theorem read_of_named {place : List String} {es : List (String × FileTree)} {names : List String}
    (hlookup : s.lookup (Path.ofString path) = .ok (place, directory es)) (hnamed : Named IsFile es names) :
    ∃ data, s.read ((Path.ofString path).below names).text = .ok data := by
  have hwell := wellformed_of_lookup hs hlookup
  have hnormal := (Path.normal_ofString path).below (hnamed.isPart hwell)
  obtain ⟨u, hu, data, rfl⟩ := hnamed.get?
  have hread := (hopen.below place _ names _ hlookup hnamed.length_le hu).read
  refine ⟨data, ?_⟩
  simp only [read, Path.ofString_text hnormal, lookup_below hopen hlookup hwell hnamed.length_le hu, hread]

end

/-- **All entries named like XML files are found**, and where none of them is a directory, each path found can be
read. -/
theorem finds_named {s : FileSystem} (hs : s.top.Wellformed) (path : String) (hopen : s.Open (Path.ofString path)) :
    Finds (fun _ => True) s path ∧
      ((∀ place es, s.lookup (Path.ofString path) = .ok (place, directory es) →
          ∀ names, ¬ Named IsDirectory es names) →
        Finds IsFile s path ∧ ∀ found, s.discover path = .ok found → ∀ f ∈ found, ∃ data, s.read f = .ok data) := by
  refine ⟨finds_of_named hs hopen fun _ _ _ _ h => h, fun hnone => ?_⟩
  have hfinds : Finds IsFile s path :=
    finds_of_named hs hopen fun place es hes names h => h.isFile (hnone place es hes names)
  refine ⟨hfinds, fun found hfound f hf => ?_⟩
  by_cases hdirectory : s.HasDirectory path
  · obtain ⟨place, es, hes⟩ := hdirectory
    obtain ⟨paths, hpaths, hdiscovers⟩ := hfinds.2 place es hes
    obtain rfl : found = paths := Except.ok.inj (hfound.symm.trans hpaths)
    obtain ⟨places, -, hnamed, rfl⟩ := hdiscovers.places
    obtain ⟨names, hnames, rfl⟩ := List.mem_map.mp hf
    exact read_of_named hs hopen hes ((hnamed names).mp hnames)
  · rw [hfinds.1.mpr hdirectory] at hfound
    cases hfound

def shelves : FileTree :=
  directory
    [("b.xml", file ByteArray.empty),
      ("sub", directory [("deeper", directory [("d.xml", file ByteArray.empty)]), ("c.xml", file ByteArray.empty)]),
      ("notes.txt", file ByteArray.empty), (".xml", file ByteArray.empty)]

theorem wellformed_shelves : shelves.Wellformed := by
  have hdeeper : (directory [("d.xml", file ByteArray.empty)]).Wellformed :=
    .directory (by decide) (by simp [Wellformed.file])
  have hsub : (directory [("deeper", directory [("d.xml", file ByteArray.empty)]),
      ("c.xml", file ByteArray.empty)]).Wellformed :=
    .directory (by decide) (by simp [Wellformed.file, hdeeper])
  exact .directory (by decide) (by simp [Wellformed.file, hsub])

def library : FileSystem :=
  ⟨directory [("home", shelves), ("work", directory [])], ["work"], Request.limits⟩

theorem lookup_library : library.lookup (Path.ofString "../home") = .ok (["home"], shelves) := by
  rfl

def shelved : List (List String) :=
  [[], ["b.xml"], ["sub"], ["notes.txt"], [".xml"], ["sub", "deeper"], ["sub", "c.xml"]]

theorem mem_shelved {names : List String} {u : FileTree} (hlength : names.length ≤ 2)
    (hu : shelves.get? names = some u) : names ∈ shelved := by
  cases names with
  | nil => simp [shelved]
  | cons name names =>
    rw [get?_cons] at hu
    obtain ⟨v, hv, hbelow⟩ := Option.bind_eq_some_iff.mp hu
    have hmem := mem_of_find? hv
    simp only [shelves, entries, List.mem_cons, Prod.mk.injEq, List.not_mem_nil, or_false] at hmem
    cases names with
    | nil => rcases hmem with ⟨rfl, -⟩ | ⟨rfl, -⟩ | ⟨rfl, -⟩ | ⟨rfl, -⟩ <;> simp [shelved]
    | cons other names =>
      have hnil : names = [] := by simpa using hlength
      rw [get?_cons, hnil] at hbelow
      obtain ⟨w, hw, -⟩ := Option.bind_eq_some_iff.mp hbelow
      have hother := mem_of_find? hw
      rcases hmem with ⟨-, rfl⟩ | ⟨rfl, rfl⟩ | ⟨-, rfl⟩ | ⟨-, rfl⟩
      · cases hother
      · simp only [entries, List.mem_cons, Prod.mk.injEq, List.not_mem_nil, or_false] at hother
        rcases hother with ⟨rfl, -⟩ | ⟨rfl, -⟩ <;> simp [shelved, hnil]
      · cases hother
      · cases hother

theorem open_library : library.Open (Path.ofString "../home") := by
  refine ⟨fun kind hkind => ?_, fun place t names u hlookup hlength hu => ?_⟩
  · rw [lookup_library] at hkind
    cases hkind
  · cases lookup_library.symm.trans hlookup
    have hshort : ∀ names ∈ shelved, Request.limits (.follow ((Path.ofString "../home").below names)) = none ∧
        ∀ name ∈ names, Request.limits (.enter [] name) = none := by
      decide +kernel
    obtain ⟨hfollow, henter⟩ := hshort names (mem_shelved hlength hu)
    refine ⟨hfollow, fun above name hnames => henter name ?_, rfl, rfl⟩
    rw [hnames]
    exact List.mem_append_right above (List.mem_singleton_self name)

theorem finds_named_shelves :
    library.top.Wellformed ∧ library.Open (Path.ofString "../home") ∧
      library.discover "../home" = .ok ["../home/.xml", "../home/b.xml", "../home/sub/c.xml"] ∧
      Finds IsFile library "../home" ∧
      ∀ f ∈ ["../home/.xml", "../home/b.xml", "../home/sub/c.xml"], ∃ data, library.read f = .ok data := by
  have hwell : library.top.Wellformed :=
    .directory (by decide) (by simp [wellformed_shelves, Wellformed.directory])
  have hplaces : placesIn shelves.entries = [[".xml"], ["b.xml"], ["sub", "c.xml"]] := by decide +kernel
  have hfound : library.discover "../home" = .ok ["../home/.xml", "../home/b.xml", "../home/sub/c.xml"] := by
    rw [discover_of_directory open_library lookup_library wellformed_shelves]
    change Except.ok ((placesIn shelves.entries).map _) = _
    rw [hplaces]
    exact congrArg Except.ok (by decide +kernel)
  have hnone : ∀ place es, library.lookup (Path.ofString "../home") = .ok (place, directory es) →
      ∀ names, ¬ Named IsDirectory es names := by
    intro place es hes names h
    cases lookup_library.symm.trans hes
    have hmem : names ∈ placesIn shelves.entries := mem_placesIn.mpr (h.imp fun _ _ => trivial)
    obtain ⟨u, hu, fs, rfl⟩ := h.get?
    -- a file stands at each of the three places
    rw [hplaces] at hmem
    simp only [List.mem_cons, List.not_mem_nil, or_false] at hmem
    rcases hmem with rfl | rfl | rfl <;> cases hu
  obtain ⟨-, hfiles⟩ := finds_named hwell "../home" open_library
  obtain ⟨hfinds, hread⟩ := hfiles hnone
  exact ⟨hwell, open_library, hfound, hfinds, hread _ hfound⟩

/-- A directory may have the name of a file, and then its path is found although it cannot be read. -/
theorem not_forall_finds_files :
    ¬ ∀ (s : FileSystem) (path : String), s.top.Wellformed → s.Open (Path.ofString path) → Finds IsFile s path := by
  intro h
  let s : FileSystem := ⟨directory [("a.xml", file ByteArray.empty), ("x.xml", directory [])], [], fun _ => none⟩
  have hwell : s.top.Wellformed := .directory (by decide) (by
    simp [Wellformed.file, Wellformed.directory])
  have hlookup : s.lookup (Path.ofString ".") = .ok ([], s.top) := rfl
  have hdirectory : s.lookup (Path.ofString "x.xml") = .ok (["x.xml"], directory []) := rfl
  have hfound : s.discover "." = .ok ["a.xml", "x.xml"] := by rfl
  obtain ⟨found, hpaths, hdiscovers⟩ := (h s "." hwell (open_of_forall (fun _ => rfl) _)).2 _ _ hlookup
  obtain rfl : ["a.xml", "x.xml"] = found := Except.ok.inj (hfound.symm.trans hpaths)
  obtain ⟨place, u, hu, data, rfl⟩ := hdiscovers.leads "x.xml" (by simp)
  rw [hdirectory] at hu
  cases hu

end FileSystem

end XmlShape
