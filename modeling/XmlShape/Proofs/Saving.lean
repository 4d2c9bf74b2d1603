import XmlShape.FileSystem

/-! # Writing one file

A file that is written stands at its path afterwards, and every other place is as it was (`Saved`). -/

namespace XmlShape

namespace FileTree

def content? : FileTree → Option ByteArray
  | file data => some data
  | directory _ => none

/-- What stands at a place: a file with its content, a directory, or nothing. -/
def contentAt (t : Option FileTree) (names : List String) : Option (Option ByteArray) :=
  (t.bind fun u => u.get? names).map content?

section
variable {t u : FileTree} {names : List String}

theorem get?_nil (t : FileTree) : t.get? [] = some t := by
  cases t <;> rfl

theorem get?_cons (t : FileTree) (name : String) (names : List String) :
    t.get? (name :: names) = (find? t.entries name).bind fun u => u.get? names := by
  cases t <;> rfl

theorem get?_append (t : FileTree) : ∀ names others : List String,
    t.get? (names ++ others) = (t.get? names).bind fun u => u.get? others
  | [], others => by rw [get?_nil, List.nil_append, Option.bind_some]
  | name :: names, others => by
    rw [List.cons_append, get?_cons, get?_cons, Option.bind_assoc]
    congr 1
    funext u
    exact get?_append u names others

theorem entries_of_find? {name : String} (h : find? t.entries name = some u) : ∃ es, t = directory es := by
  cases t with
  | file data => cases h
  | directory es => exact ⟨es, rfl⟩

/-- What stands below a name stands in a directory. -/
theorem directory_of_get?_snoc {name : String} (h : t.get? (names ++ [name]) = some u) :
    ∃ es, t.get? names = some (directory es) := by
  rw [get?_append] at h
  obtain ⟨v, hv, h⟩ := Option.bind_eq_some_iff.mp h
  rw [get?_cons] at h
  obtain ⟨w, hw, -⟩ := Option.bind_eq_some_iff.mp h
  obtain ⟨es, rfl⟩ := entries_of_find? hw
  exact ⟨es, hv⟩

end

theorem find?_setEntry (name other : String) (t : FileTree) (es : List (String × FileTree)) :
    find? (setEntry name t es) other = if other = name then some t else find? es other := by
  induction es with
  | nil =>
    by_cases h : other = name
    · simp [setEntry, find?, h]
    · simp [setEntry, find?, h, Ne.symm h]
  | cons e es ih =>
    simp only [setEntry, find?] at ih ⊢
    by_cases he : e.1 = name
    · by_cases h : other = name
      · simp [he, h]
      · simp [he, h, Ne.symm h]
    · by_cases h : e.1 = other
      · have hne : other ≠ name := fun heq => he (h.trans heq)
        simp [h, hne]
      · simp only [he, if_false, List.find?_cons, beq_eq_false_iff_ne.mpr h]
        exact ih

theorem get?_alter (f : Option FileTree → FileTree) : ∀ (names : List String) (t : Option FileTree),
    (alter f names t).get? names = some (f (t.bind fun u => u.get? names))
  | [], t => by
    have h : (t.bind fun u => u.get? []) = t := by cases t <;> simp [get?_nil]
    rw [get?_nil, alter, h]
  | name :: names, t => by
    have h : (t.bind fun u => u.get? (name :: names)) =
        (find? ((t.map entries).getD []) name).bind fun u => u.get? names := by
      cases t <;> simp [get?_cons, find?]
    rw [alter, get?_cons, entries, find?_setEntry, if_pos rfl, Option.bind_some, get?_alter f names, h]

theorem contentAt_directory (es : List (String × FileTree)) (name : String) (names : List String) :
    contentAt (some (directory es)) (name :: names) = contentAt (find? es name) names := by
  rw [contentAt, Option.bind_some, get?_cons, contentAt, entries]

theorem directory_of_contentAt {t : Option FileTree} {names : List String} (h : contentAt t names = some none) :
    ∃ es, t = some (directory es) := by
  cases t with
  | none => cases h
  | some t =>
    cases names with
    | nil =>
      cases t with
      | file data => cases h
      | directory es => exact ⟨es, rfl⟩
    | cons name names =>
      cases t with
      | file data => cases h
      | directory es => exact ⟨es, rfl⟩

/-- Putting a file into a directory leaves every other place as it was. -/
theorem contentAt_alter {data : ByteArray} : ∀ {names other : List String} {t : Option FileTree}, other ≠ names →
    contentAt t names ≠ some none → (names ≠ [] → contentAt t names.dropLast = some none) →
    contentAt (some (alter (fun _ => file data) names t)) other = contentAt t other
  | [], [], _, hne, _, _ => absurd rfl hne
  | [], o :: os, t, _, hnames, _ => by
    -- nothing can stand below the file, and nothing did: its place held no directory
    cases t with
    | none => rfl
    | some t =>
      cases t with
      | file data => rfl
      | directory es => exact absurd rfl hnames
  | name :: names, other, t, hne, hnames, habove => by
    have habove := habove (List.cons_ne_nil name names)
    obtain ⟨es, rfl⟩ := directory_of_contentAt habove
    rw [contentAt_directory] at hnames
    cases other with
    | nil => rfl
    | cons o os =>
      rw [alter, contentAt_directory, contentAt_directory, Option.map_some, Option.getD_some, entries, find?_setEntry]
      -- the other place lies the same way for one name more, or turns off here
      split
      · rename_i heq
        subst heq
        refine contentAt_alter (fun heq => hne (heq ▸ rfl)) hnames fun hnil => ?_
        rwa [List.dropLast_cons_of_ne_nil hnil, contentAt_directory] at habove
      · rfl

section
variable {t : FileTree} {names : List String}

theorem contentAt_some : contentAt (some t) names = (t.get? names).map content? :=
  rfl

theorem contentAt_eq_directory :
    contentAt (some t) names = some none ↔ ∃ es, t.get? names = some (directory es) := by
  rw [contentAt_some]
  cases t.get? names with
  | none => simp
  | some u => cases u <;> simp [content?]

theorem contentAt_dropLast {u : FileTree} (h : t.get? names = some u) (hne : names ≠ []) :
    contentAt (some t) names.dropLast = some none := by
  rw [contentAt_eq_directory]
  rw [← List.dropLast_concat_getLast hne] at h
  exact directory_of_get?_snoc h

end

end FileTree

/-! ## Paths -/

namespace FileSystem

open FileTree

section
variable {s : FileSystem} {place : List String}

/-- One step further from a directory. -/
theorem walk_cons {es : List (String × FileTree)} {name : String} (names : List String)
    (hplace : s.top.get? place = some (directory es)) (hopen : s.refuses (.enter place name) = none) :
    s.walk place (name :: names) = s.walk (if name = ".." then place.dropLast else place ++ [name]) names := by
  rw [walk, hplace]
  simp only [hopen]

theorem exists_of_walk_cons {name : String} {names reached : List String}
    (h : s.walk place (name :: names) = .ok reached) :
    ∃ es, s.top.get? place = some (directory es) ∧ s.refuses (.enter place name) = none ∧
      s.walk (if name = ".." then place.dropLast else place ++ [name]) names = .ok reached := by
  unfold walk at h
  split at h
  · cases h
  · cases h
  · split at h
    · cases h
    · exact ⟨_, ‹_›, ‹_›, h⟩

theorem directory_above_of_walk : ∀ {names place reached : List String},
    (place ≠ [] → contentAt (some s.top) place.dropLast = some none) → s.walk place names = .ok reached →
    reached ≠ [] → contentAt (some s.top) reached.dropLast = some none
  | [], place, reached, hplace, h, hne => by
    unfold walk at h
    cases h
    exact hplace hne
  | name :: names, place, reached, hplace, h, hne => by
    obtain ⟨es, hes, -, hrest⟩ := exists_of_walk_cons h
    refine directory_above_of_walk (fun hne' => ?_) hrest hne
    split at hne'
    · -- one step up: what is above was itself gone through
      have hplace' : place ≠ [] := fun hnil => hne' (by simp [hnil])
      obtain ⟨above, habove⟩ := contentAt_eq_directory.mp (hplace hplace')
      rw [if_pos ‹_›]
      exact contentAt_dropLast habove hne'
    · rw [if_neg ‹_›, List.dropLast_concat]
      exact contentAt_eq_directory.mpr ⟨es, hes⟩

/-- What a path leads to depends on the directories and on what is refused, and on nothing else. -/
theorem walk_congr {after : FileSystem} (hrefuses : after.refuses = s.refuses)
    (hdirs : ∀ names, contentAt (some s.top) names = some none → contentAt (some after.top) names = some none) :
    ∀ {names place reached : List String}, s.walk place names = .ok reached → after.walk place names = .ok reached
  | [], place, reached, h => by
    unfold walk at h ⊢
    exact h
  | name :: names, place, reached, h => by
    obtain ⟨es, hes, hopen, hrest⟩ := exists_of_walk_cons h
    obtain ⟨fs, hfs⟩ := contentAt_eq_directory.mp (hdirs place (contentAt_eq_directory.mpr ⟨es, hes⟩))
    rw [walk_cons names hfs (hrefuses ▸ hopen)]
    exact walk_congr hrefuses hdirs hrest

/-- A path that leads somewhere is followed from a directory. -/
theorem exists_of_locate {p : Path} (h : s.locate p = .ok place) :
    s.refuses (.follow p) = none ∧ (∃ es, s.top.get? (s.start p) = some (directory es)) ∧
      s.walk (s.start p) p.parts = .ok place := by
  unfold locate at h
  split at h
  · cases h
  · exact ⟨‹_›, ⟨_, ‹_›⟩, h⟩
  · cases h

theorem directory_above_of_locate {p : Path} (h : s.locate p = .ok place) (hne : place ≠ []) :
    contentAt (some s.top) place.dropLast = some none := by
  obtain ⟨-, ⟨es, hes⟩, hwalk⟩ := exists_of_locate h
  exact directory_above_of_walk (fun hstart => contentAt_dropLast hes hstart) hwalk hne

theorem locate_congr {after : FileSystem} {p : Path} (h : s.locate p = .ok place) (hhere : after.here = s.here)
    (hrefuses : after.refuses = s.refuses)
    (hdirs : ∀ names, contentAt (some s.top) names = some none → contentAt (some after.top) names = some none) :
    after.locate p = .ok place := by
  obtain ⟨hopen, ⟨es, hes⟩, hwalk⟩ := exists_of_locate h
  have hstart : after.start p = s.start p := by rw [start, start, hhere]
  obtain ⟨fs, hfs⟩ := contentAt_eq_directory.mp (hdirs _ (contentAt_eq_directory.mpr ⟨es, hes⟩))
  simp only [locate, hrefuses, hopen, hstart, hfs]
  exact walk_congr hrefuses hdirs hwalk

theorem exists_of_lookup {p : Path} {t : FileTree} (h : s.lookup p = .ok (place, t)) :
    s.locate p = .ok place ∧ s.top.get? place = some t := by
  unfold lookup at h
  split at h
  · cases h
  · split at h
    · cases h
      exact ⟨‹_›, ‹_›⟩
    · cases h

theorem lookup_of_locate {p : Path} {t : FileTree} (h : s.locate p = .ok place) (ht : s.top.get? place = some t) :
    s.lookup p = .ok (place, t) := by
  simp only [lookup, h, ht]

theorem exists_file_of_read {path : String} {data : ByteArray} (h : s.read path = .ok data) :
    ∃ place, s.top.get? place = some (file data) := by
  simp only [read] at h
  split at h
  · cases h
  · rename_i place t hlookup
    split at h
    · cases h
    · cases h
      exact ⟨place, (exists_of_lookup hlookup).2⟩
    · cases h

/-- The path leads to a file with the data, and nothing else has changed. -/
structure Saved (before after : FileSystem) (path : String) (data : ByteArray) : Prop where
  file : ∃ place, after.locate (Path.ofString path) = .ok place ∧ after.top.get? place = some (.file data) ∧
    ∀ other, other ≠ place → contentAt (some after.top) other = contentAt (some before.top) other
  here : after.here = before.here
  refuses : after.refuses = before.refuses

theorem exists_of_save {after : FileSystem} {path : String} {data : ByteArray} (h : s.save path data = .ok after) :
    ∃ place, s.locate (Path.ofString path) = .ok place ∧ contentAt (some s.top) place ≠ some none ∧
      s.refuses (.write place) = none ∧ after = { s with top := s.top.addFile place data } := by
  simp only [save] at h
  split at h
  · cases h
  · rename_i place hlocate
    split at h
    · cases h
    · cases h
    · rename_i hopen hnot
      cases h
      refine ⟨place, hlocate, fun hdir => ?_, hopen, rfl⟩
      obtain ⟨es, hes⟩ := contentAt_eq_directory.mp hdir
      exact hnot es hes

/-- **Writing a file changes nothing else.** -/
theorem saved_of_save {after : FileSystem} {path : String} {data : ByteArray} (h : s.save path data = .ok after) :
    Saved s after path data := by
  obtain ⟨place, hlocate, hplace, -, rfl⟩ := exists_of_save h
  have hframe : ∀ other, other ≠ place →
      contentAt (some (s.top.addFile place data)) other = contentAt (some s.top) other :=
    fun other hne => contentAt_alter hne hplace (directory_above_of_locate hlocate)
  -- no directory is lost, so the path leads to the same place as before
  have hdirs : ∀ other, contentAt (some s.top) other = some none →
      contentAt (some (s.top.addFile place data)) other = some none := fun other hdir => by
    by_cases heq : other = place
    · exact absurd (heq ▸ hdir) hplace
    · exact (hframe other heq).trans hdir
  exact ⟨⟨place, locate_congr hlocate rfl rfl hdirs, get?_alter _ place (some s.top), hframe⟩, rfl, rfl⟩

/-- Whether a file can be written does not depend on what is written. -/
theorem exists_save {after : FileSystem} {path : String} {data : ByteArray} (h : s.save path data = .ok after)
    (other : ByteArray) : ∃ u, s.save path other = .ok u := by
  unfold save at h ⊢
  simp only at h ⊢
  split at h
  · cases h
  · split at h
    · cases h
    · cases h
    · exact ⟨_, rfl⟩

end

end FileSystem

end XmlShape
