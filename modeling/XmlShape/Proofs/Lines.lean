import XmlShape.Proofs.Listing
import XmlShape.Proofs.Parts
import XmlShape.Proofs.Reading

/-! # Lines of a listing

A path of a listing begins a line of its own, in the order in which the paths are first seen. The line goes on to the
values unless one of those holds a line end, which names never do; a value does where the document has the character
as a reference. -/

namespace XmlShape.AttributePath

open Element

/-! ## What is seen -/

def seen (roots : List Element) : List (String × String) :=
  (placesAll roots).flatMap fun p => (properAttributes p.2.attributes).map fun a => (key p.1 a.1, a.2)

theorem sightingsAll_eq_seen {roots : List Element} (h : ∀ r ∈ roots, Slashless r) :
    sightingsAll "" roots = seen roots := by
  have hwalk := sightingsAll_eq (List.forall_mem_nil (· ≠ "")) h
  rw [String.intercalate_nil] at hwalk
  exact hwalk

/-- No line ends in the names of a document, nor in its paths. -/
theorem oneLine_of_mem_sightingsAll : ∀ {es : List Element}, (∀ e ∈ es, e.Legible) → ∀ {parent : String},
    '\n' ∉ parent.toList → ∀ s ∈ sightingsAll parent es, '\n' ∉ s.1.toList
  | [], _, _, _ => List.forall_mem_nil _
  | e :: es, h, parent, hparent => by
    obtain ⟨he, hes⟩ := List.forall_mem_cons.mp h
    have hnames : ∀ {n : String}, (∀ c ∈ n.toList, Xml.isNameChar c = true) → '\n' ∉ n.toList := fun hn hmem =>
      absurd (hn _ hmem) (by decide)
    have hextend : '\n' ∉ (extend parent e.name).toList := by
      rw [extend]
      split
      · exact hnames he.isName.all
      · simpa using ⟨hparent, hnames he.isName.all⟩
    rw [sightingsAll, sightings_eq, List.append_assoc]
    refine List.forall_mem_append.mpr ⟨fun s hs => ?_, List.forall_mem_append.mpr
      ⟨oneLine_of_mem_sightingsAll he.children hextend, oneLine_of_mem_sightingsAll hes hparent⟩⟩
    obtain ⟨a, ha, rfl⟩ := List.mem_map.mp hs
    have hname := hnames (he.attributes a (List.mem_of_mem_filter ha)).1
    simpa using ⟨hextend, hname⟩
termination_by es => sizeAll es
decreasing_by all_goals (simp only [sizeAll, size_eq]; omega)

/-! ## What is listed under a path -/

def listed (allValues : Bool) (p : AttributePath) : List String :=
  if allValues || p.values.size ≤ listLimit then p.values.toList else []

/-- The lines that begin with a path. On the first one are the path in a column of its own and the number of values;
the lines end with the values, if they are listed, and each line end in one of these makes a line more. -/
structure IsEntry (width : Nat) (allValues : Bool) (p : AttributePath) (ls : List (List Char)) : Prop where
  begins : ∃ gap rest, p.path.length + gap = width + 2 ∧
    ls.head? = some (p.path.toList ++ List.replicate gap ' ' ++ (toString p.values.size).toList ++ ' ' :: rest)
  ends : allValues = true ∨ p.values.size ≤ listLimit →
    ("  [" ++ ", ".intercalate p.values.toList ++ "]").toList <:+ ['\n'].intercalate ls
  length : ls.length = ((listed allValues p).flatMap String.toList).count '\n' + 1

theorem max?_longest {ps : List AttributePath} (h : ps ≠ []) :
    (ps.map (·.path.length)).max? = some (longest ps) := by
  cases ps with
  | nil => exact absurd rfl h
  | cons p ps => rw [List.map_cons, List.max?_cons', List.foldl_map, longest, List.foldl_cons, Nat.zero_max]

section
variable {width : Nat} {allValues : Bool} {p : AttributePath}

def noun (p : AttributePath) : String :=
  "unique value" ++ if p.values.size = 1 then "" else "s"

def bracketed (allValues : Bool) (p : AttributePath) : String :=
  if allValues || p.values.size ≤ listLimit then "  [" ++ ", ".intercalate p.values.toList ++ "]" else ""

def opening (width : Nat) (p : AttributePath) : List Char :=
  p.path.toList ++ List.replicate (width - p.path.length + 2) ' ' ++ (toString p.values.size).toList ++ [' ']

theorem toList_line (width : Nat) (allValues : Bool) (p : AttributePath) :
    (line width allValues p).toList =
      opening width p ++ ((noun p).toList ++ (bracketed allValues p).toList) := by
  have hunit : " unique value".toList = ' ' :: "unique value".toList := rfl
  have hgap : "  ".toList = List.replicate 2 ' ' := rfl
  simp only [line, Text.alignLeft, opening, noun, bracketed, String.toList_append, String.toList_ofList, hunit, hgap,
    List.replicate_add, List.append_assoc, List.cons_append, List.nil_append]

theorem not_mem_opening (hpath : '\n' ∉ p.path.toList) : '\n' ∉ opening width p := by
  have hdigits : '\n' ∉ (toString p.values.size).toList := fun h =>
    absurd (Text.isDigit_of_mem_toString _ h) (by decide)
  simp only [opening, List.mem_append, List.mem_replicate, List.mem_singleton, not_or]
  exact ⟨⟨⟨hpath, by simp⟩, hdigits⟩, by decide⟩

theorem count_line (hpath : '\n' ∉ p.path.toList) :
    (line width allValues p).toList.count '\n' = ((listed allValues p).flatMap String.toList).count '\n' := by
  have hnoun : (noun p).toList.count '\n' = 0 := by
    rw [noun]
    split <;> decide
  rw [toList_line, List.count_append, List.count_append, List.count_eq_zero_of_not_mem (not_mem_opening hpath), hnoun,
    bracketed, listed]
  split
  · have hcomma : '\n' ∉ ", ".toList := by decide
    have hvalues := Text.count_intercalate hcomma (p.values.toList.map String.toList)
    have hopen : "  [".toList.count '\n' = 0 := by decide
    have hclose : "]".toList.count '\n' = 0 := by decide
    rw [String.toList_append, String.toList_append, String.toList_intercalate, List.count_append, List.count_append,
      hvalues, hopen, hclose, List.flatMap_def]
    simp only [Nat.zero_add, Nat.add_zero]
  · rfl

theorem isEntry_splitOn (hpath : '\n' ∉ p.path.toList) (hwidth : p.path.length ≤ width) :
    IsEntry width allValues p ((line width allValues p).toList.splitOn '\n') where
  begins := by
    rw [toList_line, Text.splitOn_append_of_not_mem (not_mem_opening hpath), List.head?_modifyHead]
    generalize hls : List.splitOn '\n' _ = ls
    cases ls with
    | nil => exact absurd hls (List.splitOn_ne_nil _ _)
    | cons rest _ =>
      refine ⟨width - p.path.length + 2, rest, by omega, ?_⟩
      simp only [opening, List.head?_cons, Option.map_some, List.append_assoc, List.singleton_append]
  ends h := by
    have hlisted : (allValues || p.values.size ≤ listLimit) = true := by simpa using h
    rw [List.intercalate_splitOn, toList_line, bracketed, if_pos hlisted, ← List.append_assoc]
    exact List.suffix_append _ _
  length := by rw [Text.length_splitOn, count_line hpath]

end

/-- The lines of a listing are those of its paths, one path after another. -/
theorem exists_entries {ps : List AttributePath} (hne : ps ≠ []) (hpaths : ∀ p ∈ ps, '\n' ∉ p.path.toList)
    (allValues : Bool) :
    ∃ entries, List.Forall₂ (IsEntry (longest ps) allValues) ps entries ∧
      (render ps allValues).toList.splitOn '\n' = entries.flatten := by
  refine ⟨ps.map fun p => (line (longest ps) allValues p).toList.splitOn '\n', ?_, ?_⟩
  · refine List.forall₂_map_right_iff.mpr (List.forall₂_same.mpr fun p hp => isEntry_splitOn (hpaths p hp) ?_)
    exact (List.max?_eq_some_iff.mp (max?_longest hne)).2 _ (List.mem_map_of_mem hp)
  · have hlines : (ps.map (line (longest ps) allValues)).map String.toList ≠ [] := by simpa using hne
    rw [render, String.toList_intercalate]
    exact (Text.splitOn_intercalate hlines).trans (by simp only [List.flatMap_def, List.map_map]; rfl)

section
variable {width : Nat} {allValues : Bool} {ps : List AttributePath} {entries : List (List (List Char))}

theorem length_flatten_entries (h : List.Forall₂ (IsEntry width allValues) ps entries) :
    entries.flatten.length =
      ps.length + (ps.flatMap fun p => (listed allValues p).flatMap String.toList).count '\n' := by
  induction h with
  | nil => rfl
  | cons hp _ ih =>
    rw [List.flatten_cons, List.length_append, hp.length, ih, List.length_cons, List.flatMap_cons, List.count_append]
    omega

/-- There are as many lines as paths where no listed value makes a line more. -/
theorem length_flatten_entries_eq (h : List.Forall₂ (IsEntry width allValues) ps entries) :
    entries.flatten.length = ps.length ↔ ∀ p ∈ ps, ∀ v ∈ listed allValues p, '\n' ∉ v.toList := by
  rw [length_flatten_entries h, Nat.add_eq_left, List.count_eq_zero]
  simp only [List.mem_flatMap, not_exists, not_and]

theorem forall₂_flatten (h : List.Forall₂ (IsEntry width allValues) ps entries)
    (hone : ∀ p ∈ ps, ∀ v ∈ listed allValues p, '\n' ∉ v.toList) :
    List.Forall₂ (fun p l => IsEntry width allValues p [l]) ps entries.flatten := by
  induction h with
  | nil => exact .nil
  | @cons p ls ps entries hp _ ih =>
    obtain ⟨hp', hps⟩ := List.forall_mem_cons.mp hone
    have hnone : ((listed allValues p).flatMap String.toList).count '\n' = 0 := by
      simpa only [List.count_eq_zero, List.mem_flatMap, not_exists, not_and] using hp'
    obtain ⟨l, rfl⟩ := List.length_eq_one_iff.mp (hp.length.trans (by rw [hnone]))
    exact .cons hp (ih hps)

end

/-- **Each path begins a line, and the line is whole unless a value is cut.** -/
theorem render_lines (roots : List Element)
    (h : ∀ r ∈ roots, (∃ decoders bytes, Xml.readBytes decoders bytes = .ok r) ∨ ∃ text, Xml.readText text = .ok r)
    (allValues : Bool) :
    let ps := ofDocuments roots
    let lines := (render ps allValues).toList.splitOn '\n'
    ps.map (·.path) = ((seen roots).map (·.1)).eraseDups ∧
      (∀ p ∈ ps, ∀ v, v ∈ p.values ↔ (p.path, v) ∈ seen roots) ∧
      (ps = [] → render ps allValues = "") ∧
      (ps ≠ [] → ∃ width, (ps.map (·.path.length)).max? = some width ∧
        (∃ entries, List.Forall₂ (IsEntry width allValues) ps entries ∧ lines = entries.flatten) ∧
        (lines.length = ps.length ↔ ∀ p ∈ ps, ∀ v ∈ listed allValues p, '\n' ∉ v.toList) ∧
        ((∀ p ∈ ps, ∀ v ∈ listed allValues p, '\n' ∉ v.toList) →
          List.Forall₂ (fun p l => IsEntry width allValues p [l]) ps lines)) := by
  intro ps lines
  have hlegible : ∀ r ∈ roots, r.Legible := fun r hr => by
    rcases h r hr with ⟨decoders, bytes, hread⟩ | ⟨text, hread⟩
    · exact Xml.legible_readBytes hread
    · exact Xml.legible_readText hread
  have hseen := sightingsAll_eq_seen fun r hr => (hlegible r hr).slashless
  have hps : ps = (sightingsAll "" roots).foldl (fun ps s => add s.1 s.2 ps) [] := rfl
  refine ⟨?_, fun p hp v => ?_, fun hempty => by rw [hempty]; rfl, fun hne => ?_⟩
  · rw [hps, foldl_add_eq, FirstSeen.map_key_family fun _ => rfl, hseen]
  · obtain ⟨-, hvalues⟩ := mem_foldl_add.mp (hps ▸ hp)
    rw [hvalues, ValueSet.mem_ofList, AttributeSummary.mem_valuesOf, hseen]
  · have hpaths : ∀ p ∈ ps, '\n' ∉ p.path.toList := fun p hp => by
      obtain ⟨s, hs, hsp⟩ := List.mem_map.mp (mem_foldl_add.mp (hps ▸ hp)).1
      exact hsp ▸ oneLine_of_mem_sightingsAll hlegible (by decide) s hs
    obtain ⟨entries, hentries, hlines⟩ := exists_entries hne hpaths allValues
    have hlines : lines = entries.flatten := hlines
    refine ⟨longest ps, max?_longest hne, ⟨entries, hentries, hlines⟩, ?_, fun hone => ?_⟩
    · rw [hlines]
      exact length_flatten_entries_eq hentries
    · rw [hlines]
      exact forall₂_flatten hentries hone

def shelf : String :=
  "<a b=\"x\"><c dd=\"2\"/><c dd=\"1\"/></a>"

theorem render_lines_shelf :
    ∃ root, Xml.readText shelf = .ok root ∧
      (ofDocuments [root]).map (fun p => (p.path, p.values.toList)) = [("a/@b", ["x"]), ("a/c/@dd", ["1", "2"])] ∧
      (render (ofDocuments [root]) false).toList.splitOn '\n' =
        ["a/@b     1 unique value  [x]", "a/c/@dd  2 unique values  [1, 2]"].map String.toList ∧
      List.Forall₂ (fun p l => IsEntry 7 false p [l]) (ofDocuments [root])
        ((render (ofDocuments [root]) false).toList.splitOn '\n') := by
  have hread : (Xml.readText shelf).map (fun r => ofDocuments [r]) =
      .ok [⟨"a/@b", .ofList ["x"]⟩, ⟨"a/c/@dd", .ofList ["1", "2"]⟩] := by
    decide +kernel
  obtain ⟨root, hroot, hps⟩ := Outcome.map_eq_ok.mp hread
  have hall : ∀ r ∈ [root],
      (∃ decoders bytes, Xml.readBytes decoders bytes = .ok r) ∨ ∃ text, Xml.readText text = .ok r := by
    simpa using .inr ⟨_, hroot⟩
  obtain ⟨-, -, -, hlines⟩ := render_lines [root] hall false
  refine ⟨root, hroot, ?_⟩
  rw [hps] at hlines ⊢
  obtain ⟨width, hwidth, -, -, hentries⟩ := hlines (by decide)
  cases hwidth
  exact ⟨by decide, by decide +kernel, hentries (by decide)⟩

def folded : String :=
  "<a b=\"x&#10;y\"/>"

/-- One path can take two lines. -/
theorem not_forall_one_line :
    ¬ ∀ (text : String) (root : Element) (allValues : Bool), Xml.readText text = .ok root →
      ofDocuments [root] ≠ [] →
      ((render (ofDocuments [root]) allValues).toList.splitOn '\n').length = (ofDocuments [root]).length := by
  intro h
  have hread : (Xml.readText folded).map (fun r => ofDocuments [r]) = .ok [⟨"a/@b", .ofList ["x\ny"]⟩] := by
    decide +kernel
  obtain ⟨root, hroot, hps⟩ := Outcome.map_eq_ok.mp hread
  have hlines := h folded root false hroot
  rw [hps] at hlines
  exact absurd (hlines (by decide)) (by decide +kernel)

end XmlShape.AttributePath
