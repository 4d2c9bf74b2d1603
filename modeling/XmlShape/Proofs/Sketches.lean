import XmlShape.Proofs.Parts
import XmlShape.Proofs.Pictures
import XmlShape.Proofs.Reading

/-! # Drawings read back

The line of an item tells how deep the item stands and what its label is, and that much of all items in
order tells the picture. As long as names hold no line end and no space and do not begin like the marks of
attributes and of text, the labels tell what they were made of. -/

namespace XmlShape.Drawing

/-! ## What a line tells -/

theorem length_connector (last : Bool) : (connector last).toList.length = 4 := by
  cases last <;> rfl

theorem length_continuation (last : Bool) : (continuation last).toList.length = 4 := by
  cases last <;> rfl

section
variable {b c : Bool} {s t : String}

theorem connector_append_inj (h : connector b ++ s = connector c ++ t) : s = t :=
  (Text.append_inj_of_length ((length_connector b).trans (length_connector c).symm) h).2

theorem continuation_append_inj (h : continuation b ++ s = continuation c ++ t) : s = t :=
  (Text.append_inj_of_length ((length_continuation b).trans (length_continuation c).symm) h).2

theorem connector_append_ne : connector b ++ s ≠ continuation c ++ t := by
  intro h
  have hpiece := (Text.append_inj_of_length ((length_connector b).trans (length_continuation c).symm) h).1
  revert hpiece
  cases b <;> cases c <;> decide

end

/-- A line tells the number of items above and the label. -/
theorem eq_of_line_eq : ∀ {as bs : List Branch} {a b : Branch}, (Place.mk as a).line = (Place.mk bs b).line →
    as.length = bs.length ∧ a.item.label = b.item.label
  | [], [], ⟨p, ps⟩, ⟨q, qs⟩, h => by
    rw [line_here, line_here] at h
    exact ⟨rfl, connector_append_inj h⟩
  | [], d :: bs, ⟨p, ps⟩, b, h => by
    have hd : Place.mk (d :: bs) b = (Place.mk bs b).under d := rfl
    rw [hd, line_here, line_under] at h
    exact absurd h connector_append_ne
  | c :: as, [], a, ⟨q, qs⟩, h => by
    have hc : Place.mk (c :: as) a = (Place.mk as a).under c := rfl
    rw [hc, line_here, line_under] at h
    exact absurd h.symm connector_append_ne
  | c :: as, d :: bs, a, b, h => by
    have hc : Place.mk (c :: as) a = (Place.mk as a).under c := rfl
    have hd : Place.mk (d :: bs) b = (Place.mk bs b).under d := rfl
    rw [hc, hd, line_under, line_under] at h
    obtain ⟨hlength, hlabel⟩ := eq_of_line_eq (continuation_append_inj h)
    exact ⟨congrArg (· + 1) hlength, hlabel⟩

/-! ## Depths and labels tell the picture -/

def depths (ps : List Picture) : List (Nat × String) :=
  (placesAll ps).map fun x => (x.above.length, x.own.item.label)

theorem depths_cons (p : Picture) (ps : List Picture) :
    depths (p :: ps) = (0, p.label) :: ((depths p.items).map (fun d => (d.1 + 1, d.2)) ++ depths ps) := by
  rw [depths, placesAll_cons, List.map_cons, List.map_append, List.map_map, depths, List.map_map]
  rfl

theorem head?_depths (ps : List Picture) : ∀ d ∈ (depths ps).head?, d.1 = 0 := by
  cases ps with
  | nil => intro d hd; cases hd
  | cons p ps =>
    rw [depths_cons]
    rintro d ⟨⟩
    rfl

theorem depths_injective : ∀ {ps qs : List Picture}, depths ps = depths qs → ps = qs
  | [], [], _ => rfl
  | [], q :: qs, h => by rw [depths_cons] at h; cases h
  | p :: ps, [], h => by rw [depths_cons] at h; cases h
  | ⟨label, items⟩ :: ps, ⟨other, things⟩ :: qs, h => by
    rw [depths_cons, depths_cons, List.cons.injEq, Prod.mk.injEq] at h
    obtain ⟨⟨-, hlabel⟩, h⟩ := h
    -- what stands below the first item is deeper than the item after it
    have hdeeper : ∀ ds : List (Nat × String), ∀ d ∈ ds.map (fun d => (d.1 + 1, d.2)), decide (0 < d.1) = true := by
      intro ds d hd
      obtain ⟨e, -, rfl⟩ := List.mem_map.mp hd
      simp
    have hhead : ∀ rs : List Picture, ∀ d ∈ (depths rs).head?, decide (0 < d.1) = false := by
      intro rs d hd
      rw [head?_depths rs d hd]
      rfl
    obtain ⟨hbelow, hafter⟩ :=
      Text.append_inj_of_split (hdeeper _) (hhead ps) (hdeeper _) (hhead qs) h
    have hitems : depths items = depths things :=
      List.map_inj_right (fun a b hab => by simpa [Prod.ext_iff] using hab) |>.mp hbelow
    have hpicture : Picture.mk label items = Picture.mk other things := by
      rw [depths_injective hitems, show label = other from hlabel]
    rw [hpicture, depths_injective hafter]

theorem map_eq_of_map_eq {α β γ : Type} {f : α → β} {g : α → γ} (h : ∀ a b, f a = f b → g a = g b) :
    ∀ {as bs : List α}, as.map f = bs.map f → as.map g = bs.map g
  | [], [], _ => rfl
  | a :: as, b :: bs, hab => by
    rw [List.map_cons, List.map_cons, List.cons.injEq] at hab
    rw [List.map_cons, List.map_cons, h a b hab.1, map_eq_of_map_eq h hab.2]

/-- Equal lines are lines of one picture. -/
theorem picture_eq_of_lines_eq {o : Options} {s t : Summary} (h : lines o s = lines o t) :
    Picture.ofSummary o 1 s = Picture.ofSummary o 1 t := by
  rw [lines_eq_places, lines_eq_places, List.cons.injEq, places_eq, places_eq] at h
  refine Picture.ext ?_ (depths_injective ?_)
  · rw [label_ofSummary, label_ofSummary, h.1]
  · exact map_eq_of_map_eq (fun x y hxy => Prod.ext_iff.mpr (eq_of_line_eq hxy)) h.2

/-! ## Labels tell what they were made of -/

def OneLine (s : String) : Prop :=
  '\n' ∉ s.toList

instance (s : String) : Decidable (OneLine s) :=
  inferInstanceAs (Decidable ('\n' ∉ s.toList))

/-- A name that a line can hold, which neither the mark behind it nor those of attributes and text blur. -/
structure IsPlain (name : String) : Prop where
  one_line : OneLine name
  no_space : ' ' ∉ name.toList
  not_at : name.toList.head? ≠ some '@'
  not_hash : name.toList.head? ≠ some '#'

inductive Drawable : Summary → Prop
  | intro {s : Summary} : IsPlain s.name → (∀ a ∈ s.attributes, OneLine a.name) →
      (∀ c ∈ s.children, Drawable c) → Drawable s

theorem Drawable.plain {s : Summary} : Drawable s → IsPlain s.name
  | .intro h _ _ => h

def markText (mark : String) : String :=
  if mark = "" then "" else "  " ++ mark

theorem label_all (s : Summary) : label Options.all s = s.name ++ markText s.range.mark := by
  simp only [label, Options.all, if_true, markText]
  split <;> simp [String.append_assoc]

theorem head?_markText (mark : String) : ∀ c ∈ (markText mark).toList.head?, c = ' ' := by
  rw [markText]
  split <;> simp

theorem markText_inj {mark other : String} (h : markText mark = markText other) : mark = other := by
  have hlist := congrArg String.toList h
  simp only [markText] at hlist
  split at hlist <;> split at hlist <;> simp_all [String.toList_inj]

theorem label_inj {s t : Summary} (hs : IsPlain s.name) (ht : IsPlain t.name)
    (h : label Options.all s = label Options.all t) : s.name = t.name ∧ s.range.mark = t.range.mark := by
  have hlist := congrArg String.toList h
  rw [label_all, label_all, String.toList_append, String.toList_append] at hlist
  have hname : ∀ u : Summary, IsPlain u.name → ∀ c ∈ u.name.toList, (c != ' ') = true := fun u hu c hc =>
    bne_iff_ne.mpr fun e => hu.no_space (e ▸ hc)
  have hmark : ∀ mark, ∀ c ∈ (markText mark).toList.head?, (c != ' ') = false := fun mark c hc => by
    simp [head?_markText mark c hc]
  obtain ⟨hn, hm⟩ := Text.append_inj_of_split (hname s hs) (hmark _) (hname t ht) (hmark _) hlist
  exact ⟨String.toList_inj.mp hn, markText_inj (String.toList_inj.mp hm)⟩

def isMark (label : String) : Bool :=
  label.toList.head? == some '@' || label.toList.head? == some '#'

theorem isMark_of_mem_marks {o : Options} {attributes : List AttributeSummary} {mixed : Bool} :
    ∀ m ∈ marks o attributes mixed, isMark m = true := by
  intro m hm
  simp only [marks, List.mem_append] at hm
  rcases hm with hm | hm
  · split at hm
    · obtain ⟨name, -, rfl⟩ := List.mem_map.mp hm
      simp [isMark]
    · cases hm
  · split at hm
    · rw [List.mem_singleton.mp hm]
      rfl
    · cases hm

theorem not_isMark_label {s : Summary} (hs : IsPlain s.name) : isMark (label Options.all s) = false := by
  have hspace := head?_markText s.range.mark
  rw [isMark, label_all, String.toList_append, List.head?_append, Bool.or_eq_false_iff, beq_eq_false_iff_ne,
    beq_eq_false_iff_ne]
  cases hn : s.name.toList.head? with
  | none =>
    rw [Option.none_or]
    exact ⟨fun h => absurd (hspace _ h) (by decide), fun h => absurd (hspace _ h) (by decide)⟩
  | some c =>
    rw [Option.some_or, ← hn]
    exact ⟨hs.not_at, hs.not_hash⟩

theorem marks_inj {attributes others : List AttributeSummary} {mixed other : Bool}
    (h : marks Options.all attributes mixed = marks Options.all others other) :
    (ValueSet.ofList (attributes.map (·.name))).toList = (ValueSet.ofList (others.map (·.name))).toList ∧
      mixed = other := by
  simp only [marks, Options.all, if_true] at h
  have hat : ∀ names : List String, ∀ m ∈ names.map fun name => "@" ++ name,
      (m.toList.head? == some '@') = true := by
    intro names m hm
    obtain ⟨name, -, rfl⟩ := List.mem_map.mp hm
    simp
  have htext : ∀ mixed : Bool, ∀ m ∈ (if mixed = true then ["#text"] else []).head?,
      (m.toList.head? == some '@') = false := by
    intro mixed m hm
    cases mixed <;> cases hm
    rfl
  obtain ⟨hnames, htexts⟩ := Text.append_inj_of_split (hat _) (htext mixed) (hat _) (htext other) h
  refine ⟨List.map_inj_right (fun a b hab => (Text.append_inj_of_length rfl hab).2) |>.mp hnames, ?_⟩
  cases mixed <;> cases other <;> simp_all

/-! ## Sketches -/

structure Sketch where
  name : String
  mark : String
  /-- The names of the attributes, in ascending order. -/
  attributes : List String
  mixed : Bool
  children : List Sketch

mutual
def Sketch.ofSummary : Summary → Sketch
  | ⟨name, counts, mixed, _, attributes, children⟩ =>
    ⟨name, (OccurrenceRange.ofCounts counts).mark, (ValueSet.ofList (attributes.map (·.name))).toList, mixed,
      Sketch.ofSummaries children⟩

def Sketch.ofSummaries : List Summary → List Sketch
  | [] => []
  | s :: ss => Sketch.ofSummary s :: Sketch.ofSummaries ss
end

theorem isMark_of_mem_items {o : Options} {attributes : List AttributeSummary} {mixed : Bool} :
    ∀ p ∈ (marks o attributes mixed).map fun m => Picture.mk m [], isMark p.label = true := by
  intro p hp
  obtain ⟨m, hm, rfl⟩ := List.mem_map.mp hp
  exact isMark_of_mem_marks m hm

theorem isMark_ofSummaries {level : Int} {ss : List Summary} (hs : ∀ s ∈ ss, Drawable s) :
    ∀ p ∈ (Picture.ofSummaries Options.all level ss).head?, isMark p.label = false := by
  cases ss with
  | nil => rw [Picture.ofSummaries]; intro p hp; cases hp
  | cons s ss =>
    rw [Picture.ofSummaries]
    rintro p ⟨⟩
    rw [label_ofSummary]
    exact not_isMark_label (hs s (List.mem_cons_self ..)).plain

mutual
theorem sketch_eq {level : Int} : ∀ {s t : Summary}, Drawable s → Drawable t →
    Picture.ofSummary Options.all level s = Picture.ofSummary Options.all level t →
    Sketch.ofSummary s = Sketch.ofSummary t
  | ⟨name, counts, mixed, texts, attributes, children⟩, ⟨name', counts', mixed', texts', attributes', children'⟩,
      .intro hname _ hchildren, .intro hname' _ hchildren', h => by
    rw [Picture.ofSummary, Picture.ofSummary, Picture.mk.injEq] at h
    obtain ⟨hlabel, hitems⟩ := h
    obtain ⟨hn, hmark⟩ := label_inj hname hname' hlabel
    have hends : Options.all.endsAt level = false := rfl
    rw [hends, if_neg Bool.false_ne_true, if_neg Bool.false_ne_true] at hitems
    -- the marks end where the first label of a child stands
    obtain ⟨hm, hc⟩ := Text.append_inj_of_split isMark_of_mem_items (isMark_ofSummaries hchildren)
      isMark_of_mem_items (isMark_ofSummaries hchildren') hitems
    obtain ⟨ha, hmixed⟩ := marks_inj (List.map_inj_right (fun a b hab => congrArg Picture.label hab) |>.mp hm)
    rw [Sketch.ofSummary, Sketch.ofSummary, Sketch.mk.injEq]
    exact ⟨hn, hmark, ha, hmixed, sketches_eq hchildren hchildren' hc⟩

theorem sketches_eq {level : Int} : ∀ {ss ts : List Summary}, (∀ s ∈ ss, Drawable s) → (∀ t ∈ ts, Drawable t) →
    Picture.ofSummaries Options.all level ss = Picture.ofSummaries Options.all level ts →
    Sketch.ofSummaries ss = Sketch.ofSummaries ts
  | [], [], _, _, _ => rfl
  | [], t :: ts, _, _, h => by rw [Picture.ofSummaries, Picture.ofSummaries] at h; cases h
  | s :: ss, [], _, _, h => by rw [Picture.ofSummaries, Picture.ofSummaries] at h; cases h
  | s :: ss, t :: ts, hs, ht, h => by
    rw [Picture.ofSummaries, Picture.ofSummaries, List.cons.injEq] at h
    obtain ⟨hs, hss⟩ := List.forall_mem_cons.mp hs
    obtain ⟨ht, hts⟩ := List.forall_mem_cons.mp ht
    rw [Sketch.ofSummaries, Sketch.ofSummaries, sketch_eq hs ht h.1, sketches_eq hss hts h.2]
end

/-! ## Lines of a drawing -/

theorem OneLine.append {s t : String} (hs : OneLine s) (ht : OneLine t) : OneLine (s ++ t) := by
  rw [OneLine, String.toList_append, List.mem_append, not_or]
  exact ⟨hs, ht⟩

theorem oneLine_nat (n : Nat) : OneLine (toString n) := fun h =>
  absurd (Text.isDigit_of_mem_toString _ h) (by decide)

theorem oneLine_int (n : Int) : OneLine (toString n) := by
  cases n with
  | ofNat n => exact oneLine_nat n
  | negSucc n => exact OneLine.append (s := "-") (by decide) (oneLine_nat (n + 1))

theorem oneLine_mark (r : OccurrenceRange) : OneLine r.mark := by
  have hmin := oneLine_int r.minimum
  have hmax := oneLine_int r.maximum
  have hopen : OneLine (toString "(x") := by decide
  have hclose : OneLine (toString ")") := by decide
  have hdots : OneLine (toString "..") := by decide
  rw [OccurrenceRange.mark]
  split
  · split
    · exact (hopen.append hmin).append hclose
    · decide
  · exact (((hopen.append hmin).append hdots).append hmax).append hclose

theorem oneLine_label {s : Summary} (hs : IsPlain s.name) : OneLine (label Options.all s) := by
  rw [label_all]
  refine hs.one_line.append ?_
  rw [markText]
  split
  · decide
  · exact OneLine.append (by decide) (oneLine_mark _)

theorem oneLine_connector (last : Bool) : OneLine (connector last) := by
  cases last <;> decide

theorem oneLine_continuation (last : Bool) : OneLine (continuation last) := by
  cases last <;> decide

theorem oneLine_marks {attributes : List AttributeSummary} {mixed : Bool}
    (h : ∀ a ∈ attributes, OneLine a.name) : ∀ m ∈ marks Options.all attributes mixed, OneLine m := by
  simp only [marks, Options.all, if_true]
  refine List.forall_mem_append.mpr ⟨fun m hm => ?_, ?_⟩
  · obtain ⟨name, hname, rfl⟩ := List.mem_map.mp hm
    obtain ⟨a, ha, rfl⟩ := List.mem_map.mp (ValueSet.mem_ofList.mp hname)
    exact OneLine.append (by decide) (h a ha)
  · cases mixed <;> decide

theorem oneLine_markLines {indent : String} (hindent : OneLine indent) (last : Bool) : ∀ {ms : List String},
    (∀ m ∈ ms, OneLine m) → ∀ l ∈ markLines indent last ms, OneLine l
  | [], _ => List.forall_mem_nil _
  | m :: ms, h => by
    obtain ⟨hm, hms⟩ := List.forall_mem_cons.mp h
    rw [markLines]
    exact List.forall_mem_cons.mpr
      ⟨(hindent.append (oneLine_connector _)).append hm, oneLine_markLines hindent last hms⟩

theorem oneLine_childLines {level : Int} {indent : String} (hindent : OneLine indent) {ss : List Summary}
    (hplain : ∀ s ∈ ss, IsPlain s.name) (h : ∀ s ∈ ss, ∀ {level : Int} {indent : String}, OneLine indent →
      ∀ l ∈ content Options.all level indent s, OneLine l) :
    ∀ l ∈ childLines Options.all level indent ss, OneLine l := by
  induction ss with
  | nil => rw [childLines]; exact List.forall_mem_nil _
  | cons s ss ih =>
    obtain ⟨hname, hnames⟩ := List.forall_mem_cons.mp hplain
    obtain ⟨hs, hss⟩ := List.forall_mem_cons.mp h
    rw [childLines]
    refine List.forall_mem_cons.mpr ⟨?_, List.forall_mem_append.mpr
      ⟨hs (hindent.append (oneLine_continuation _)), ih hnames hss⟩⟩
    exact (hindent.append (oneLine_connector _)).append (oneLine_label hname)

theorem oneLine_content {s : Summary} (hs : Drawable s) : ∀ {level : Int} {indent : String}, OneLine indent →
    ∀ l ∈ content Options.all level indent s, OneLine l := by
  induction hs with
  | @intro s _ hattributes hchildren ih =>
    obtain ⟨name, counts, mixed, texts, attributes, children⟩ := s
    intro level indent hindent
    have hends : Options.all.endsAt level = false := rfl
    rw [content, hends, if_neg Bool.false_ne_true]
    exact List.forall_mem_append.mpr ⟨oneLine_markLines hindent _ (oneLine_marks hattributes),
      oneLine_childLines hindent (fun c hc => (hchildren c hc).plain) ih⟩

theorem splitOn_render {s : Summary} (hs : Drawable s) :
    (render Options.all s).toList.splitOn '\n' = (lines Options.all s).map String.toList := by
  rw [render, String.toList_intercalate]
  refine List.splitOn_intercalate '\n' (fun l hl => ?_) (by simp [lines])
  obtain ⟨line, hline, rfl⟩ := List.mem_map.mp hl
  rcases List.mem_cons.mp hline with rfl | hline
  · exact oneLine_label hs.plain
  · exact oneLine_content hs (by decide) line hline

theorem lines_eq_of_render_eq {s t : Summary} (hs : Drawable s) (ht : Drawable t)
    (h : render Options.all s = render Options.all t) : lines Options.all s = lines Options.all t := by
  refine List.map_injective_iff.mpr (fun _ _ => String.toList_inj.mp) ?_
  rw [← splitOn_render hs, ← splitOn_render ht, h]

/-! ## Names that a document can hold -/

theorem isPlain_of_isName {name : String} (h : Xml.IsName name) : IsPlain name := by
  have habsent : ∀ c, Xml.isNameChar c = false → c ∉ name.toList := fun c hc hmem =>
    Bool.false_ne_true (hc ▸ h.all c hmem)
  obtain ⟨c, cs, hname, hc, -⟩ := h
  have hfirst : ∀ d, Xml.isNameStart d = false → name.toList.head? ≠ some d := by
    rintro d hd hhead
    rw [hname] at hhead
    cases hhead
    exact Bool.false_ne_true (hd ▸ hc)
  exact ⟨habsent _ (by decide), habsent _ (by decide), hfirst _ (by decide), hfirst _ (by decide)⟩

theorem drawable_gather (name : String) (counts : List Int) (es : List Element) (hn : Xml.IsName name)
    (h : ∀ e ∈ es, e.Legible) : Drawable (Summary.gather name counts es) := by
  rw [Summary.gather_eq]
  refine .intro (isPlain_of_isName hn) (fun a ha => ?_) fun c hc => ?_
  · obtain ⟨e, he, v, hv⟩ := AttributeSummary.exists_carrier_of_mem_tally ha
    obtain ⟨hchars, -⟩ := (h e he).attributes _ hv
    exact fun hmem => absurd (hchars _ hmem) (by decide)
  · obtain ⟨m, hm, rfl⟩ := List.mem_map.mp hc
    have hm := List.mem_eraseDups.mp hm
    obtain ⟨e, he, d, hd, hdm⟩ := Element.mem_childNames.mp hm
    refine drawable_gather m _ _ (hdm ▸ ((h e he).children d hd).isName) fun f hf => ?_
    obtain ⟨g, hg, hf, -⟩ := Element.mem_childrenNamed.mp hf
    exact (h g hg).children f hf
termination_by Element.sizeAll es
decreasing_by exact Element.sizeAll_childrenNamed_lt hm

theorem drawable_ofDocuments {roots : List Element} (h : ∀ r ∈ roots, r.Legible) :
    ∀ s ∈ Summary.ofDocuments roots, Drawable s := by
  rw [Summary.ofDocuments_eq]
  intro s hs
  obtain ⟨n, hn, rfl⟩ := List.mem_map.mp hs
  obtain ⟨r, hr, rfl⟩ := List.mem_map.mp (List.mem_eraseDups.mp hn)
  exact drawable_gather r.name _ _ (h r hr).isName fun e he => h e (Element.mem_named.mp he).1

/-- **Drawings can be read back.** The lines of a drawing are the label of the root and the lines of the
places below it, and equal drawings are drawings of one sketch, as long as the names are like those of
documents that can be read. -/
theorem render_readable :
    (∀ s, Drawable s → (render Options.all s).toList.splitOn '\n' =
      (label Options.all s :: (Picture.ofSummary Options.all 1 s).places.map Place.line).map String.toList) ∧
    (∀ s x, x ∈ (Picture.ofSummary Options.all 1 s).places ↔ Stands (Picture.ofSummary Options.all 1 s).items x) ∧
    (∀ s t, Drawable s → Drawable t → render Options.all s = render Options.all t →
      Sketch.ofSummary s = Sketch.ofSummary t) ∧
    (∀ roots : List Element,
      (∀ r ∈ roots, (∃ decoders bytes, Xml.readBytes decoders bytes = .ok r) ∨ ∃ text, Xml.readText text = .ok r) →
      ∀ s ∈ Summary.ofDocuments roots, Drawable s) := by
  refine ⟨fun s hs => ?_, fun s x => ?_, fun s t hs ht h => ?_, fun roots h => ?_⟩
  · rw [splitOn_render hs, lines_eq_places]
  · rw [places_eq, mem_placesAll]
  · exact sketch_eq hs ht (picture_eq_of_lines_eq (lines_eq_of_render_eq hs ht h))
  · refine drawable_ofDocuments fun r hr => ?_
    rcases h r hr with ⟨decoders, bytes, hread⟩ | ⟨text, hread⟩
    · exact Xml.legible_readBytes hread
    · exact Xml.legible_readText hread

theorem render_readable_pair :
    let s : Summary := ⟨"a", [1], true, ["x"], [⟨"k", .ofList ["1"], 1⟩], [⟨"b", [2], false, [], [], []⟩]⟩
    let t : Summary := ⟨"a", [1], true, ["y"], [⟨"k", .ofList ["2"], 1⟩], [⟨"b", [2], false, [], [], []⟩]⟩
    (Drawable s ∧ Drawable t ∧ render Options.all s = render Options.all t) ∧ s.texts ≠ t.texts ∧
      Sketch.ofSummary s = Sketch.ofSummary t ∧
      (render Options.all s).toList.splitOn '\n' =
        ["a", "├── @k", "├── #text", "└── b  (x2)"].map String.toList ∧
      ∃ root, Xml.readText "<a/>" = .ok root ∧ ∀ s ∈ Summary.ofDocuments [root], Drawable s := by
  intro s t
  have hb : Drawable ⟨"b", [2], false, [], [], []⟩ :=
    .intro ⟨by decide, by decide, by decide, by decide⟩ (by simp) (by simp)
  have hs : Drawable s :=
    .intro ⟨by decide, by decide, by decide, by decide⟩ (by simp [s]; decide) (by simpa [s] using hb)
  have ht : Drawable t :=
    .intro ⟨by decide, by decide, by decide, by decide⟩ (by simp [t]; decide) (by simpa [t] using hb)
  have heq : render Options.all s = render Options.all t := rfl
  have hread : (Xml.readText "<a/>").toOption.isSome = true := by decide +kernel
  obtain ⟨hlines, -, hsketch, hdrawable⟩ := render_readable
  refine ⟨⟨hs, ht, heq⟩, by decide, hsketch s t hs ht heq, hlines s hs, ?_⟩
  cases hroot : Xml.readText "<a/>" with
  | error e => rw [hroot] at hread; cases hread
  | ok root =>
    refine ⟨root, rfl, hdrawable [root] ?_⟩
    simp only [List.mem_singleton, forall_eq]
    exact .inr ⟨_, hroot⟩

end XmlShape.Drawing
