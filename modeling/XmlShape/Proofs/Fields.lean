import Mathlib.Data.List.Nodup
import XmlShape.Outline.Record

/-! # The fields of records

The record of a summary puts fields and children under one set of keys. What stands under a key is what
was put there last, so a child that has the name of a field takes its place, or loses its own to the
field that comes after the children. -/

namespace XmlShape

namespace Json

section
variable (key : String)

theorem get?_cons (f : String × Json) (fs : List (String × Json)) :
    get? key (f :: fs) = if f.1 = key then some f.2 else get? key fs := by
  rw [get?, List.find?_cons]
  by_cases h : f.1 = key
  · simp [h]
  · rw [beq_false_of_ne h, if_neg h]
    rfl

theorem get?_append (fs gs : List (String × Json)) : get? key (fs ++ gs) = (get? key fs).or (get? key gs) := by
  rw [get?, List.find?_append, Option.map_or]
  rfl

theorem get?_ite (p : Prop) [Decidable p] (name : String) (v : Json) :
    get? key (if p then [(name, v)] else []) = if name = key ∧ p then some v else none := by
  by_cases hp : p
  · simp only [hp, if_true, and_true]
    exact get?_cons key (name, v) []
  · simp [hp, get?]

theorem get?_eq_none {fs : List (String × Json)} (h : key ∉ fs.map (·.1)) : get? key fs = none := by
  rw [get?, Option.map_eq_none_iff, List.find?_eq_none]
  exact fun f hf hk => h (List.mem_map.mpr ⟨f, hf, by simpa using hk⟩)

theorem get?_of_mem {v : Json} : ∀ {fs : List (String × Json)}, (fs.map (·.1)).Nodup → (key, v) ∈ fs →
    get? key fs = some v
  | f :: fs, hnd, h => by
    obtain ⟨hf, hnd⟩ := List.nodup_cons.mp hnd
    rw [get?_cons]
    rcases List.mem_cons.mp h with rfl | h
    · rw [if_pos rfl]
    · rw [if_neg fun e => hf (List.mem_map.mpr ⟨_, h, e.symm⟩), get?_of_mem hnd h]

theorem get?_put (name : String) (v : Json) : ∀ fs : List (String × Json),
    get? key (put name v fs) = if name = key then some v else get? key fs
  | [] => get?_cons key (name, v) []
  | f :: fs => by
    rw [put, get?_cons]
    by_cases hf : f.1 = name
    · rw [if_pos hf, get?_cons, hf]
      split <;> rfl
    · rw [if_neg hf, get?_cons, get?_put name v fs]
      by_cases hk : name = key
      · rw [if_pos hk, if_pos hk, if_neg fun e => hf (e.trans hk.symm)]
      · rw [if_neg hk, if_neg hk]

/-- Of fields with distinct keys each one stays as it was put; the others keep what they held before. -/
theorem get?_putAll : ∀ (more fs : List (String × Json)), (more.map (·.1)).Nodup →
    get? key (putAll fs more) = (get? key more).or (get? key fs)
  | [], _, _ => rfl
  | f :: more, fs, hnd => by
    obtain ⟨hf, hnd⟩ := List.nodup_cons.mp hnd
    have hstep : putAll fs (f :: more) = putAll (put f.1 f.2 fs) more := rfl
    rw [hstep, get?_putAll more _ hnd, get?_put, get?_cons]
    by_cases hk : f.1 = key
    · rw [if_pos hk, if_pos hk, get?_eq_none key (hk ▸ hf)]
      rfl
    · rw [if_neg hk, if_neg hk]

end

end Json

namespace Summary

variable {s : Summary}

theorem hasText_iff : s.hasText = true ↔ s.texts ≠ [] := by
  simp [hasText]

theorem hasChildren_iff : s.hasChildren = true ↔ s.children ≠ [] := by
  simp [hasChildren]

theorem hasAttributes_iff : s.hasAttributes = true ↔ s.attributes ≠ [] := by
  simp [hasAttributes]

end Summary

namespace Outline

open Json Summary

/-! ## What a record is made of -/

def childFields (s : Summary) : List (String × Json) :=
  s.children.map fun c => (c.name, .object (record c))

theorem putChildren_eq : ∀ (cs : List Summary) (fields : List (String × Json)),
    putChildren fields cs = putAll fields (cs.map fun c => (c.name, .object (record c)))
  | [], _ => by rw [putChildren]; rfl
  | c :: cs, fields => by rw [putChildren, putChildren_eq cs]; rfl

theorem record_eq (s : Summary) :
    record s = putAll (putAll (putAll [] (leading s)) (childFields s)) (trailing s) := by
  cases s
  rw [record, putChildren_eq]
  rfl

theorem map_key_childFields (s : Summary) : (childFields s).map (·.1) = s.children.map (·.name) := by
  rw [childFields, List.map_map]
  rfl

section
variable (s : Summary)

theorem keys_ite (p : Prop) [Decidable p] (key : String) (v : Json) :
    (List.map (·.1) (if p then [(key, v)] else [])).Sublist [key] := by
  split <;> simp

theorem keys_leading : ((leading s).map (·.1)).Sublist ["count", "occurs", "optional", "attrs", "children"] := by
  simp only [leading, List.map_append]
  exact ((((keys_ite ..).append (keys_ite ..)).append (keys_ite ..)).append (keys_ite ..)).append (keys_ite ..)

theorem keys_trailing : ((trailing s).map (·.1)).Sublist ["text"] :=
  keys_ite ..

theorem get?_leading (key : String) :
    get? key (leading s) =
      ((((if "count" = key ∧ s.instances > 1 then some (.integer s.instances) else none).or
        (if "occurs" = key ∧ s.range.repeatable = true then some (.string s.range.label) else none)).or
        (if "optional" = key ∧ s.range.optional = true then some (.boolean true) else none)).or
        (if "attrs" = key ∧ s.hasAttributes = true then some (.array ((annotations s).map .string)) else none)).or
        (if "children" = key ∧ s.hasChildren = true then some (.array (s.children.map fun c => .string c.name))
          else none) := by
  simp only [leading, get?_append, get?_ite]

variable (hnd : (s.children.map (·.name)).Nodup)
include hnd

/-- The field after the children comes before them, and they come before the other fields. -/
theorem get?_record (key : String) :
    get? key (record s) = (get? key (trailing s)).or ((get? key (childFields s)).or (get? key (leading s))) := by
  have hc : ((childFields s).map (·.1)).Nodup := by rwa [map_key_childFields]
  -- what was put last stands first in the alternative
  rw [record_eq, get?_putAll key _ _ ((keys_trailing s).nodup (by decide)), get?_putAll key _ _ hc,
    get?_putAll key _ _ ((keys_leading s).nodup (by decide))]
  simp [get?]

theorem get?_record_child {c : Summary} (hc : c ∈ s.children) (ht : c.name = "text" → s.hasText = false) :
    get? c.name (record s) = some (.object (record c)) := by
  have hmem : (c.name, Json.object (record c)) ∈ childFields s := List.mem_map.mpr ⟨c, hc, rfl⟩
  have htrailing : get? c.name (trailing s) = none := by
    rw [trailing, get?_ite, if_neg]
    rintro ⟨hn, htext⟩
    rw [ht hn.symm] at htext
    cases htext
  rw [get?_record s hnd, htrailing, get?_of_mem _ (by rwa [map_key_childFields]) hmem]
  rfl

theorem get?_record_leading {key : String} (hkey : key ≠ "text") (h : key ∉ s.children.map (·.name)) :
    get? key (record s) = get? key (leading s) := by
  have htrailing : get? key (trailing s) = none := by
    rw [trailing, get?_ite, if_neg fun ht => hkey ht.1.symm]
  rw [get?_record s hnd, htrailing, get?_eq_none key (by rwa [map_key_childFields])]
  rfl

theorem get?_record_text (h : s.hasText = true) : get? "text" (record s) = some (.string s.type.name) := by
  rw [get?_record s hnd, trailing, get?_ite, if_pos ⟨rfl, h⟩]
  rfl

end

/-! ## Clashes of names -/

/-- Every child and every field of a summary stands in its record under its own key. -/
structure Intact (s : Summary) : Prop where
  child : ∀ c ∈ s.children, get? c.name (record s) = some (.object (record c))
  count : s.instances > 1 → get? "count" (record s) = some (.integer s.instances)
  occurs : s.range.repeatable = true → get? "occurs" (record s) = some (.string s.range.label)
  optional : s.range.optional = true → get? "optional" (record s) = some (.boolean true)
  attrs : s.attributes ≠ [] → get? "attrs" (record s) = some (.array ((annotations s).map .string))
  children : s.children ≠ [] →
    get? "children" (record s) = some (.array (s.children.map fun c => .string c.name))
  text : s.texts ≠ [] → get? "text" (record s) = some (.string s.type.name)

/-- A child's record is an object, so under the key of another value there is no child. -/
theorem Intact.not_mem_names {s : Summary} (h : Intact s) {key : String} {v : Json}
    (hv : get? key (record s) = some v) (hobject : ∀ fields, v ≠ .object fields) :
    key ∉ s.children.map (·.name) := by
  intro hmem
  obtain ⟨c, hc, rfl⟩ := List.mem_map.mp hmem
  have := (h.child c hc).symm.trans hv
  exact hobject _ (Option.some.inj this).symm

/-- **Clashes.** Where the children have distinct names, a record shows all of a summary exactly if no child
has the name of a field that the summary has. -/
theorem intact_iff (s : Summary) (hnd : (s.children.map (·.name)).Nodup) :
    Intact s ↔
      "children" ∉ s.children.map (·.name) ∧
      (s.texts ≠ [] → "text" ∉ s.children.map (·.name)) ∧
      (s.instances > 1 → "count" ∉ s.children.map (·.name)) ∧
      (s.range.repeatable = true → "occurs" ∉ s.children.map (·.name)) ∧
      (s.range.optional = true → "optional" ∉ s.children.map (·.name)) ∧
      (s.attributes ≠ [] → "attrs" ∉ s.children.map (·.name)) := by
  constructor
  · intro h
    refine ⟨fun hmem => ?_, fun ht => ?_, fun hc => ?_, fun hr => ?_, fun ho => ?_, fun ha => ?_⟩
    · have hne : s.children ≠ [] := by rintro e; rw [e] at hmem; cases hmem
      exact h.not_mem_names (h.children hne) (by simp) hmem
    · exact h.not_mem_names (h.text ht) (by simp)
    · exact h.not_mem_names (h.count hc) (by simp)
    · exact h.not_mem_names (h.occurs hr) (by simp)
    · exact h.not_mem_names (h.optional ho) (by simp)
    · exact h.not_mem_names (h.attrs ha) (by simp)
  · rintro ⟨hchildren, htext, hcount, hoccurs, hoptional, hattrs⟩
    exact
      { child := fun c hc => get?_record_child s hnd hc fun hn => by
          by_contra ht
          exact htext (hasText_iff.mp (by simpa using ht)) (hn ▸ List.mem_map.mpr ⟨c, hc, rfl⟩)
        count := fun hc => by
          rw [get?_record_leading s hnd (by decide) (hcount hc), get?_leading]
          simp [hc]
        occurs := fun hr => by
          rw [get?_record_leading s hnd (by decide) (hoccurs hr), get?_leading]
          simp [hr]
        optional := fun ho => by
          rw [get?_record_leading s hnd (by decide) (hoptional ho), get?_leading]
          simp [ho]
        attrs := fun ha => by
          rw [get?_record_leading s hnd (by decide) (hattrs ha), get?_leading]
          simp [hasAttributes_iff, ha]
        children := fun hc => by
          rw [get?_record_leading s hnd (by decide) hchildren, get?_leading]
          simp [hasChildren_iff, hc]
        text := fun ht => get?_record_text s hnd (hasText_iff.mpr ht) }

/-- A child named `text` is shown as long as its parent has no text of its own. -/
theorem intact_iff_text :
    let child : Summary := ⟨"text", [1, 1], false, ["x"], [], []⟩
    let silent : Summary := ⟨"a", [2], false, [], [], [child]⟩
    let speaking : Summary := ⟨"a", [2], true, ["y"], [], [child]⟩
    (silent.children.map (·.name)).Nodup ∧ Intact silent ∧
      (speaking.children.map (·.name)).Nodup ∧ ¬Intact speaking := by
  intro child silent speaking
  refine ⟨by decide, (intact_iff silent (by decide)).mpr (by decide), by decide, fun h => ?_⟩
  exact ((intact_iff speaking (by decide)).mp h).2.1 (by decide) (by decide)

end Outline

end XmlShape
