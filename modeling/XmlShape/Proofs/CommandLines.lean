import XmlShape.Command.Arguments

/-! # Command lines

Words without a hyphen in front are files, and options before them set what they stand for
(`Sets.readArguments`). -/

namespace XmlShape.Command

theorem classify_of_plain {ss : List Switch} {w : String} (h : w.toList.head? ≠ some '-') :
    classify ss w = .ok .plain := by
  unfold classify
  split
  · rfl
  · rename_i hw
    simp [hw] at h
  · rfl
  · rename_i hw
    simp [hw] at h
  · rfl

theorem classifyAll_plain {ss : List Switch} : ∀ {ws : List String}, (∀ w ∈ ws, w.toList.head? ≠ some '-') →
    classifyAll ss ws = .ok (ws.map fun w => (w, .plain))
  | [], _ => rfl
  | w :: ws, h => by
    obtain ⟨hw, hws⟩ := List.forall_mem_cons.mp h
    rw [classifyAll, classify_of_plain hw]
    change classifyAll ss ws >>= _ = _
    rw [classifyAll_plain hws]
    rfl

namespace Reading

theorem words_plain : ∀ (ws : List String) (r : Reading), r.run ≠ .over →
    r.words (ws.map fun w => (w, .plain)) =
      .ok { r with
        settings := { r.settings with files := r.settings.files ++ ws }
        run := if ws.isEmpty then r.run else .within }
  | [], r, _ => by simp [words]
  | w :: ws, r, h => by
    rw [List.map_cons, words, words_plain ws _ (by simp [plain, h])]
    simp [plain, h]

end Reading

/-- What an option does to the settings, whatever is read after it. -/
def Sets (view : View) (ws : List String) (f : Settings → Settings) : Prop :=
  ∀ (rest : List String) (words : List (String × Word)), classifyAll view.switches rest = .ok words →
    ∃ read, classifyAll view.switches (ws ++ rest) = .ok (read ++ words) ∧
      ∀ r : Reading, r.run = .ahead → r.settings.view = view →
        r.words (read ++ words) = Reading.words { r with settings := f r.settings } words ∧ (f r.settings).view = view

section
variable {view : View}

theorem sets_nil : Sets view [] id :=
  fun _ _ hrest => ⟨[], hrest, fun _ _ hview => ⟨rfl, hview⟩⟩

theorem Sets.append {vs ws : List String} {f g : Settings → Settings} (hv : Sets view vs f) (hw : Sets view ws g) :
    Sets view (vs ++ ws) (g ∘ f) := by
  intro rest words hrest
  obtain ⟨read, hread, hsets⟩ := hw _ _ hrest
  obtain ⟨before, hbefore, hfirst⟩ := hv _ _ hread
  refine ⟨before ++ read, by rw [List.append_assoc, List.append_assoc, hbefore], fun r hrun hview => ?_⟩
  obtain ⟨hone, hone'⟩ := hfirst r hrun hview
  obtain ⟨htwo, htwo'⟩ := hsets { r with settings := f r.settings } hrun hone'
  exact ⟨by rw [List.append_assoc, hone, htwo]; rfl, htwo'⟩

theorem Sets.ite {ws : List String} {f : Settings → Settings} (p : Prop) [Decidable p] (h : Sets view ws f) :
    Sets view (if p then [] else ws) (if p then id else f) := by
  split
  · exact sets_nil
  · exact h

theorem classifyAll_cons {ss : List Switch} {w : String} {ws : List String} {word : Word}
    {words : List (String × Word)} (hw : classify ss w = .ok word) (hword : word ≠ .mark)
    (hws : classifyAll ss ws = .ok words) : classifyAll ss (w :: ws) = .ok ((w, word) :: words) := by
  rw [classifyAll, hw]
  cases word with
  | mark => exact absurd rfl hword
  | _ =>
    change classifyAll ss ws >>= _ = _
    rw [hws]
    rfl

variable {s : Switch} {w : String} {f : Settings → Settings}

theorem sets_flag (hw : classify view.switches w = .ok (.switch s w none)) (hs : s.value = none)
    (hf : ∀ st, applyFlag st s = .ok (f st) ∧ (f st).view = st.view) : Sets view [w] f := by
  intro rest words hrest
  refine ⟨[(w, .switch s w none)], classifyAll_cons hw nofun hrest, fun r hrun hview => ⟨?_, (hf _).2.trans hview⟩⟩
  have hbundle : unbundle view.switches (w.length + 1) s w none = .ok ⟨[s], none, none⟩ := by
    simp [unbundle, hs]
  have hflags : r.flags [s] = .ok { r with settings := f r.settings } := by
    simp only [Reading.flags, List.foldlM_cons, List.foldlM_nil, (hf r.settings).1]
    rfl
  have hinterrupt : r.interrupt = r := by
    simp [Reading.interrupt, hrun]
  have hleave : ∀ q : Reading, q.leave none = q := fun q => by
    simp [Reading.leave]
  rw [List.singleton_append, Reading.words]
  simp only [hinterrupt, hview, hbundle, hflags, hleave]
  rfl

theorem sets_value {v : String} (hw : classify view.switches w = .ok (.switch s w none)) (hs : s.value.isSome)
    (hv : classify view.switches v = .ok .plain)
    (hf : ∀ st, applyValue st s v = .ok (f st) ∧ (f st).view = st.view) : Sets view [w, v] f := by
  intro rest words hrest
  refine ⟨[(w, .switch s w none), (v, .plain)], classifyAll_cons hw nofun (classifyAll_cons hv nofun hrest),
    fun r hrun hview => ⟨?_, (hf _).2.trans hview⟩⟩
  have hbundle : unbundle view.switches (w.length + 1) s w none = .ok ⟨[], some (s, none), none⟩ := by
    simp [unbundle, hs]
  have hvalued : r.valued s v = .ok { r with settings := f r.settings } := by
    simp only [Reading.valued, (hf r.settings).1]
    rfl
  have hinterrupt : r.interrupt = r := by
    simp [Reading.interrupt, hrun]
  have hflags : r.flags [] = .ok r := rfl
  rw [List.cons_append, List.singleton_append, Reading.words]
  simp only [hinterrupt, hview, hbundle, hflags]
  change r.valued s v >>= _ = _
  rw [hvalued]
  rfl

/-- Options before the files set what they stand for, and the files are those named. -/
theorem Sets.readArguments {ws paths : List String} (h : Sets view ws f)
    (hpaths : ∀ p ∈ paths, p.toList.head? ≠ some '-') (hf : (f (Settings.start view)).files = []) :
    readArguments (view.name :: (ws ++ paths)) = .ok { f (Settings.start view) with files := paths } := by
  obtain ⟨read, hread, hsets⟩ := h _ _ (classifyAll_plain hpaths)
  have hprogram : readProgram [] (view.name :: (ws ++ paths)) = .ok (view, ws ++ paths, []) := by
    cases view <;> rfl
  have hstart := (hsets ⟨Settings.start view, .ahead, []⟩ rfl rfl).1
  have hrun : (⟨f (Settings.start view), .ahead, []⟩ : Reading).run ≠ .over := nofun
  have hwords := hstart.trans (Reading.words_plain paths _ hrun)
  have hview : readView view (ws ++ paths) = .ok ({ f (Settings.start view) with files := paths }, []) := by
    simp only [readView, hread, hwords, hf, List.nil_append]
    rfl
  unfold Command.readArguments
  rw [hprogram]
  change readView view (ws ++ paths) >>= _ = _
  rw [hview]
  rfl

end

end XmlShape.Command
