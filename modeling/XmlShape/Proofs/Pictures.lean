import XmlShape.Drawing

/-! # The layout of drawings

A drawing is a picture: items under items, each with its label. The line of an item has a piece for each
item above it, which says whether more items follow there, and a connector that says whether the item
itself is the last (`content_eq`). -/

namespace XmlShape.Drawing

/-! ## Pictures -/

@[ext]
structure Picture where
  label : String
  items : List Picture

mutual
/-- A summary on level `level` with what is drawn under it: its attributes in ascending order, a mark if its
content is mixed, and its children. -/
def Picture.ofSummary (o : Options) (level : Int) : Summary → Picture
  | ⟨name, counts, mixed, texts, attributes, children⟩ =>
    ⟨Drawing.label o ⟨name, counts, mixed, texts, attributes, children⟩,
      if o.endsAt level then []
      else (marks o attributes mixed).map (fun m => ⟨m, []⟩) ++ Picture.ofSummaries o (level + 1) children⟩

def Picture.ofSummaries (o : Options) (level : Int) : List Summary → List Picture
  | [] => []
  | s :: ss => Picture.ofSummary o level s :: Picture.ofSummaries o level ss
end

/-- An item and those that come after it under the same parent. -/
structure Branch where
  item : Picture
  later : List Picture

structure Place where
  above : List Branch
  own : Branch

def Place.under (b : Branch) (x : Place) : Place :=
  ⟨b :: x.above, x.own⟩

mutual
def Picture.places : Picture → List Place
  | ⟨_, items⟩ => placesAll items

def placesAll : List Picture → List Place
  | [] => []
  | p :: ps => ⟨[], ⟨p, ps⟩⟩ :: (p.places.map (Place.under ⟨p, ps⟩) ++ placesAll ps)
end

/-- The line of an item: four characters for each item above it, a connector, and its label. -/
def Place.line (x : Place) : String :=
  String.join (x.above.map fun b => if b.later.isEmpty then "    " else "│   ") ++
    (if x.own.later.isEmpty then "└── " else "├── ") ++ x.own.item.label

/-- `Stands items x`: going down from `items`, one comes to the place `x`. -/
inductive Stands : List Picture → Place → Prop
  | here (before : List Picture) (p : Picture) (later : List Picture) :
      Stands (before ++ p :: later) ⟨[], ⟨p, later⟩⟩
  | deeper (before : List Picture) (p : Picture) (later : List Picture) {x : Place} :
      Stands p.items x → Stands (before ++ p :: later) (x.under ⟨p, later⟩)

theorem places_eq (p : Picture) : p.places = placesAll p.items := by
  cases p; rw [Picture.places]

theorem placesAll_cons (p : Picture) (ps : List Picture) :
    placesAll (p :: ps) = ⟨[], ⟨p, ps⟩⟩ :: ((placesAll p.items).map (Place.under ⟨p, ps⟩) ++ placesAll ps) := by
  rw [placesAll, places_eq]

theorem Stands.cons (p : Picture) {ps : List Picture} {x : Place} : Stands ps x → Stands (p :: ps) x
  | .here before q later => .here (p :: before) q later
  | .deeper before q later h => .deeper (p :: before) q later h

mutual
theorem stands_of_mem_places {x : Place} : ∀ {p : Picture}, x ∈ p.places → Stands p.items x
  | ⟨_, _⟩, h => by
    rw [Picture.places] at h
    exact stands_of_mem h

theorem stands_of_mem {x : Place} : ∀ {ps : List Picture}, x ∈ placesAll ps → Stands ps x
  | p :: ps, h => by
    rw [placesAll] at h
    rcases List.mem_cons.mp h with rfl | h
    · exact .here [] p ps
    · rcases List.mem_append.mp h with h | h
      · obtain ⟨y, hy, rfl⟩ := List.mem_map.mp h
        exact .deeper [] p ps (stands_of_mem_places hy)
      · exact (stands_of_mem h).cons p
end

theorem mem_of_mem_later {x : Place} {later : List Picture} : ∀ before : List Picture,
    x ∈ placesAll later → x ∈ placesAll (before ++ later)
  | [], h => h
  | p :: before, h => by
    rw [List.cons_append, placesAll_cons]
    exact List.mem_cons_of_mem _ (List.mem_append_right _ (mem_of_mem_later before h))

/-- The places listed are those that one comes to. -/
theorem mem_placesAll {ps : List Picture} {x : Place} : x ∈ placesAll ps ↔ Stands ps x := by
  refine ⟨stands_of_mem, fun h => ?_⟩
  induction h with
  | here before p later =>
    exact mem_of_mem_later before (placesAll_cons p later ▸ List.mem_cons_self ..)
  | deeper before p later _ ih =>
    refine mem_of_mem_later before (placesAll_cons p later ▸ List.mem_cons_of_mem _ ?_)
    exact List.mem_append_left _ (List.mem_map_of_mem ih)

/-! ## Lines -/

theorem line_here (p : Picture) (later : List Picture) :
    (Place.mk [] ⟨p, later⟩).line = connector later.isEmpty ++ p.label := by
  rw [Place.line, connector, List.map_nil, String.join_nil, String.empty_append]

theorem line_under (b : Branch) (x : Place) : (x.under b).line = continuation b.later.isEmpty ++ x.line := by
  rw [Place.line, Place.line, Place.under, continuation, List.map_cons, String.join_cons]
  simp only [String.append_assoc]

def linesOf (indent : String) (ps : List Picture) : List String :=
  (placesAll ps).map fun x => indent ++ x.line

theorem linesOf_cons (indent : String) (p : Picture) (ps : List Picture) :
    linesOf indent (p :: ps) =
      (indent ++ connector ps.isEmpty ++ p.label) ::
        (linesOf (indent ++ continuation ps.isEmpty) p.items ++ linesOf indent ps) := by
  rw [linesOf, placesAll_cons, List.map_cons, List.map_append, List.map_map, line_here, ← String.append_assoc]
  congr 2
  refine List.map_congr_left fun x _ => ?_
  rw [Function.comp, line_under, String.append_assoc]

theorem linesOf_marks (indent : String) (ps : List Picture) : ∀ ms : List String,
    linesOf indent (ms.map (fun m => ⟨m, []⟩) ++ ps) = markLines indent ps.isEmpty ms ++ linesOf indent ps
  | [] => rfl
  | m :: ms => by
    have hnil : linesOf (indent ++ continuation (ms.map (fun m => Picture.mk m []) ++ ps).isEmpty) [] = [] := rfl
    -- the last mark ends the content only if no child follows
    have hlast : (ms.map (fun m => Picture.mk m []) ++ ps).isEmpty = (ps.isEmpty && ms.isEmpty) := by
      cases ms <;> cases ps <;> rfl
    rw [List.map_cons, List.cons_append, linesOf_cons, hnil, List.nil_append, linesOf_marks indent ps ms, hlast,
      markLines]
    rfl

theorem isEmpty_ofSummaries (o : Options) (level : Int) (ss : List Summary) :
    (Picture.ofSummaries o level ss).isEmpty = ss.isEmpty := by
  cases ss <;> rw [Picture.ofSummaries] <;> rfl

theorem label_ofSummary (o : Options) (level : Int) (s : Summary) :
    (Picture.ofSummary o level s).label = label o s := by
  cases s; rw [Picture.ofSummary]

theorem childLines_eq {o : Options} (level : Int) (indent : String) {ss : List Summary}
    (h : ∀ s ∈ ss, ∀ level indent, content o level indent s = linesOf indent (Picture.ofSummary o level s).items) :
    childLines o level indent ss = linesOf indent (Picture.ofSummaries o level ss) := by
  induction ss with
  | nil => rw [childLines, Picture.ofSummaries]; rfl
  | cons s ss ih =>
    obtain ⟨hs, hss⟩ := List.forall_mem_cons.mp h
    rw [childLines, Picture.ofSummaries, linesOf_cons, isEmpty_ofSummaries, label_ofSummary, hs, ih hss]

theorem content_eq (o : Options) (s : Summary) : ∀ level indent,
    content o level indent s = linesOf indent (Picture.ofSummary o level s).items := by
  induction s using Summary.tree_induction with
  | step s ih =>
    obtain ⟨name, counts, mixed, texts, attributes, children⟩ := s
    intro level indent
    rw [content, Picture.ofSummary]
    split
    · rfl
    · rw [linesOf_marks, isEmpty_ofSummaries, childLines_eq _ _ ih]

/-- **Layout.** A drawing is the label of its root and, below it, the line of each place. -/
theorem lines_eq_places (o : Options) (s : Summary) :
    lines o s = label o s :: (Picture.ofSummary o 1 s).places.map Place.line := by
  rw [lines, content_eq, linesOf, places_eq]
  simp only [String.empty_append]

end XmlShape.Drawing
