import XmlShape.Drawing

/-! # Drawings that end at a level

A drawing that ends at a level is the whole drawing of a summary that ends there, and its lines are lines of the
whole drawing of the summary itself, just those that belong to the levels above the end and the names on it
(`render_endsAt`). -/

namespace XmlShape

namespace Summary

mutual
/-- The summary, its root on level `level`, without attributes, children and mixed content on level `last`. -/
def endAt (last level : Int) : Summary → Summary
  | ⟨name, counts, mixed, texts, attributes, children⟩ =>
    if level = last then ⟨name, counts, false, texts, [], []⟩
    else ⟨name, counts, mixed, texts, attributes, endAllAt last (level + 1) children⟩

def endAllAt (last level : Int) : List Summary → List Summary
  | [] => []
  | s :: ss => s.endAt last level :: endAllAt last level ss
end

theorem isEmpty_endAllAt (last level : Int) (ss : List Summary) : (endAllAt last level ss).isEmpty = ss.isEmpty := by
  cases ss with
  | nil => rfl
  | cons s ss => rw [endAllAt]; rfl

end Summary

namespace Drawing

variable (attributes counts : Bool) (k : Int)

theorem label_endAt (o : Options) (last level : Int) (s : Summary) : label o (s.endAt last level) = label o s := by
  cases s
  rw [Summary.endAt]
  split <;> rfl

theorem endsAt_some (level : Int) : (Options.mk (some k) attributes counts).endsAt level = decide (k ≤ level) :=
  rfl

theorem marks_nil (o : Options) : marks o [] false = [] := by
  cases o with
  | mk depth attributes counts => cases attributes <;> rfl

/-! ## The whole drawing of a part -/

theorem childLines_endAllAt {level : Int} (indent : String) {ss : List Summary}
    (h : ∀ s ∈ ss, ∀ indent, content ⟨some k, attributes, counts⟩ level indent s =
      content ⟨none, attributes, counts⟩ level indent (s.endAt (max k 1) level)) :
    childLines ⟨some k, attributes, counts⟩ level indent ss =
      childLines ⟨none, attributes, counts⟩ level indent (Summary.endAllAt (max k 1) level ss) := by
  induction ss with
  | nil => rw [childLines, Summary.endAllAt, childLines]
  | cons s ss ih =>
    obtain ⟨hs, hss⟩ := List.forall_mem_cons.mp h
    rw [childLines, Summary.endAllAt, childLines, Summary.isEmpty_endAllAt, label_endAt, hs, ih hss]
    rfl

theorem content_endAt (s : Summary) : ∀ (level : Int) (indent : String), 1 ≤ level → level ≤ max k 1 →
    content ⟨some k, attributes, counts⟩ level indent s =
      content ⟨none, attributes, counts⟩ level indent (s.endAt (max k 1) level) := by
  induction s using Summary.tree_induction with
  | step s ih =>
    obtain ⟨name, ns, mixed, texts, as, children⟩ := s
    intro level indent hlow hhigh
    rw [content, Summary.endAt, endsAt_some]
    by_cases hlast : level = max k 1
    · have hends : decide (k ≤ level) = true := decide_eq_true (by omega)
      rw [hends, if_pos rfl, if_pos hlast, content, marks_nil, childLines, markLines]
      rfl
    · have hends : decide (k ≤ level) = false := decide_eq_false (by omega)
      rw [hends, if_neg Bool.false_ne_true, if_neg hlast, content, Summary.isEmpty_endAllAt,
        childLines_endAllAt attributes counts k indent fun c hc indent =>
          ih c hc (level + 1) indent (by omega) (by omega)]
      rfl

theorem lines_endAt (s : Summary) :
    lines ⟨some k, attributes, counts⟩ s = lines ⟨none, attributes, counts⟩ (s.endAt (max k 1) 1) := by
  rw [lines, lines, content_endAt attributes counts k s 1 "" (by omega) (by omega), label_endAt]
  rfl

/-! ## A part of the whole drawing -/

inductive Role where
  /-- The name of an element on this level. -/
  | element (level : Int)
  /-- An attribute, or the text, of an element on this level. -/
  | mark (level : Int)

def Role.drawn (k : Int) : Role → Bool
  | element level => level ≤ max k 1
  | mark level => level < k

mutual
/-- What the lines show that stand under the name of a summary on level `level`, in order. -/
def rolesBelow (o : Options) (level : Int) : Summary → List Role
  | ⟨_, _, mixed, _, attributes, children⟩ =>
    (marks o attributes mixed).map (fun _ => .mark level) ++ rolesAll o (level + 1) children

def rolesAll (o : Options) (level : Int) : List Summary → List Role
  | [] => []
  | s :: ss => .element level :: (rolesBelow o level s ++ rolesAll o level ss)
end

def roles (o : Options) (s : Summary) : List Role :=
  .element 1 :: rolesBelow o 1 s

def drawnLines (k : Int) (ls : List String) (rs : List Role) : List String :=
  ((ls.zip rs).filter fun x => x.2.drawn k).map (·.1)

section
variable {k} {ls : List String} {rs : List Role}

theorem drawnLines_cons (l : String) (r : Role) :
    drawnLines k (l :: ls) (r :: rs) = if r.drawn k then l :: drawnLines k ls rs else drawnLines k ls rs := by
  rw [drawnLines, List.zip_cons_cons, List.filter_cons]
  split <;> rfl

theorem drawnLines_append (h : ls.length = rs.length) (ls' : List String) (rs' : List Role) :
    drawnLines k (ls ++ ls') (rs ++ rs') = drawnLines k ls rs ++ drawnLines k ls' rs' := by
  rw [drawnLines, List.zip_append h, List.filter_append, List.map_append]
  rfl

theorem drawnLines_eq_self (h : ls.length = rs.length) (hrs : ∀ r ∈ rs, r.drawn k = true) :
    drawnLines k ls rs = ls := by
  rw [drawnLines, List.filter_eq_self.mpr fun x hx => hrs _ (List.of_mem_zip hx).2, List.map_fst_zip (by omega)]

theorem drawnLines_eq_nil (hrs : ∀ r ∈ rs, r.drawn k = false) : drawnLines k ls rs = [] := by
  rw [drawnLines, List.filter_eq_nil_iff.mpr fun x hx => by simp [hrs _ (List.of_mem_zip hx).2], List.map_nil]

theorem drawnLines_sublist (h : ls.length = rs.length) : (drawnLines k ls rs).Sublist ls := by
  have hsub := (List.filter_sublist (l := ls.zip rs) (p := fun x => x.2.drawn k)).map (·.1)
  rwa [List.map_fst_zip (by omega)] at hsub

end

theorem length_markLines (indent : String) (last : Bool) (ms : List String) :
    (markLines indent last ms).length = ms.length := by
  induction ms with
  | nil => rw [markLines]
  | cons m ms ih => rw [markLines, List.length_cons, List.length_cons, ih]

/-- Every line of the whole drawing has a role. -/
theorem length_content (s : Summary) : ∀ (level : Int) (indent : String),
    (content ⟨none, attributes, counts⟩ level indent s).length =
      (rolesBelow ⟨none, attributes, counts⟩ level s).length := by
  have hall : ∀ {ss : List Summary} (level : Int) (indent : String),
      (∀ s ∈ ss, ∀ indent, (content ⟨none, attributes, counts⟩ level indent s).length =
        (rolesBelow ⟨none, attributes, counts⟩ level s).length) →
      (childLines ⟨none, attributes, counts⟩ level indent ss).length =
        (rolesAll ⟨none, attributes, counts⟩ level ss).length := by
    intro ss level indent h
    induction ss with
    | nil => rw [childLines, rolesAll]; rfl
    | cons s ss ih =>
      obtain ⟨hs, hss⟩ := List.forall_mem_cons.mp h
      rw [childLines, rolesAll, List.length_cons, List.length_cons, List.length_append, List.length_append, hs, ih hss]
  induction s using Summary.tree_induction with
  | step s ih =>
    obtain ⟨name, ns, mixed, texts, as, children⟩ := s
    intro level indent
    have hends : (Options.mk none attributes counts).endsAt level = false := rfl
    rw [content, rolesBelow, hends, if_neg Bool.false_ne_true, List.length_append, List.length_append, length_markLines,
      List.length_map, hall (level + 1) indent fun c hc indent => ih c hc (level + 1) indent]

/-- From the end on no line has a role that is drawn. -/
theorem not_drawn_of_mem_rolesBelow {o : Options} (s : Summary) : ∀ {level : Int}, 1 ≤ level → k ≤ level →
    ∀ r ∈ rolesBelow o level s, r.drawn k = false := by
  have hall : ∀ {ss : List Summary} {level : Int}, 1 < level → k < level →
      (∀ s ∈ ss, ∀ r ∈ rolesBelow o level s, r.drawn k = false) → ∀ r ∈ rolesAll o level ss, r.drawn k = false := by
    intro ss level hlow hend h
    induction ss with
    | nil => rw [rolesAll]; exact List.forall_mem_nil _
    | cons s ss ih =>
      obtain ⟨hs, hss⟩ := List.forall_mem_cons.mp h
      rw [rolesAll]
      refine List.forall_mem_cons.mpr ⟨?_, List.forall_mem_append.mpr ⟨hs, ih hss⟩⟩
      exact decide_eq_false (by omega)
  induction s using Summary.tree_induction with
  | step s ih =>
    obtain ⟨name, ns, mixed, texts, as, children⟩ := s
    intro level hlow hend
    rw [rolesBelow]
    refine List.forall_mem_append.mpr ⟨List.forall_mem_map.mpr fun _ _ => decide_eq_false (by omega), ?_⟩
    exact hall (by omega) (by omega) fun c hc => ih c hc (by omega) (by omega)

theorem childLines_eq_drawnLines {level : Int} (indent : String) (hend : level ≤ k) {ss : List Summary}
    (h : ∀ s ∈ ss, ∀ indent, content ⟨some k, attributes, counts⟩ level indent s =
      drawnLines k (content ⟨none, attributes, counts⟩ level indent s)
        (rolesBelow ⟨none, attributes, counts⟩ level s)) :
    childLines ⟨some k, attributes, counts⟩ level indent ss =
      drawnLines k (childLines ⟨none, attributes, counts⟩ level indent ss)
        (rolesAll ⟨none, attributes, counts⟩ level ss) := by
  induction ss with
  | nil => rw [childLines, childLines, rolesAll]; rfl
  | cons s ss ih =>
    obtain ⟨hs, hss⟩ := List.forall_mem_cons.mp h
    have hname : (Role.element level).drawn k = true := decide_eq_true (by omega)
    rw [childLines, childLines, rolesAll, drawnLines_cons, if_pos hname, drawnLines_append (length_content ..), ← hs,
      ← ih hss]
    rfl

theorem content_eq_drawnLines (s : Summary) : ∀ (level : Int) (indent : String), 1 ≤ level →
    content ⟨some k, attributes, counts⟩ level indent s =
      drawnLines k (content ⟨none, attributes, counts⟩ level indent s)
        (rolesBelow ⟨none, attributes, counts⟩ level s) := by
  induction s using Summary.tree_induction with
  | step s ih =>
    intro level indent hlow
    by_cases hend : k ≤ level
    · rw [drawnLines_eq_nil (not_drawn_of_mem_rolesBelow k s hlow hend)]
      cases s
      rw [content, endsAt_some, if_pos (decide_eq_true hend)]
    · obtain ⟨name, ns, mixed, texts, as, children⟩ := s
      have hends : (Options.mk none attributes counts).endsAt level = false := rfl
      have hmarks : ∀ r ∈ (marks ⟨none, attributes, counts⟩ as mixed).map fun _ => Role.mark level,
          r.drawn k = true :=
        List.forall_mem_map.mpr fun _ _ => decide_eq_true (by omega)
      have hlength : ∀ last, (markLines indent last (marks ⟨none, attributes, counts⟩ as mixed)).length =
          ((marks ⟨none, attributes, counts⟩ as mixed).map fun _ => Role.mark level).length := fun last => by
        rw [length_markLines, List.length_map]
      rw [content, content, rolesBelow, endsAt_some, if_neg (by simpa using hend), hends, if_neg Bool.false_ne_true,
        drawnLines_append (hlength _), drawnLines_eq_self (hlength _) hmarks,
        ← childLines_eq_drawnLines attributes counts k indent (by omega) fun c hc indent =>
          ih c hc (level + 1) indent (by omega)]
      rfl

/-- **A drawing that ends at a level.** It is the whole drawing of the summary that ends there, and its lines are
those of the whole drawing of the summary that show an element no further down than the end, or an attribute or
the text of an element above it. -/
theorem render_endsAt (s : Summary) :
    render ⟨some k, attributes, counts⟩ s = render ⟨none, attributes, counts⟩ (s.endAt (max k 1) 1) ∧
    (lines ⟨none, attributes, counts⟩ s).length = (roles ⟨none, attributes, counts⟩ s).length ∧
    lines ⟨some k, attributes, counts⟩ s =
      (((lines ⟨none, attributes, counts⟩ s).zip (roles ⟨none, attributes, counts⟩ s)).filter
        fun x => x.2.drawn k).map (·.1) ∧
    (lines ⟨some k, attributes, counts⟩ s).Sublist (lines ⟨none, attributes, counts⟩ s) := by
  have hlength : (lines ⟨none, attributes, counts⟩ s).length = (roles ⟨none, attributes, counts⟩ s).length :=
    congrArg (· + 1) (length_content attributes counts s 1 "")
  have hroot : (Role.element 1).drawn k = true := decide_eq_true (by omega)
  have hlines : lines ⟨some k, attributes, counts⟩ s =
      drawnLines k (lines ⟨none, attributes, counts⟩ s) (roles ⟨none, attributes, counts⟩ s) := by
    rw [lines, lines, roles, drawnLines_cons, if_pos hroot,
      ← content_eq_drawnLines attributes counts k s 1 "" (Int.le_refl 1)]
    rfl
  refine ⟨?_, hlength, hlines, ?_⟩
  · rw [render, render, lines_endAt]
  · rw [hlines]
    exact drawnLines_sublist hlength

end Drawing

end XmlShape
