import XmlShape.Proofs.Fields

/-! # Outlines told from records

The outline of a summary and its record are written apart. Where no name below the summary is that of a
field, the record says all that the outline shows: the outline can be written from the record and the
summary's own name. -/

namespace XmlShape

namespace Json

end Json

namespace Outline

open Json Summary

/-! ## Writing an outline from a record -/

def stringAt? (key : String) (fields : List (String × Json)) : Option String :=
  match get? key fields with
  | some (.string s) => some s
  | _ => none

def stringsAt? (key : String) (fields : List (String × Json)) : Option (List String) :=
  match get? key fields with
  | some (.array items) => some (items.filterMap fun item => match item with | .string s => some s | _ => none)
  | _ => none

def isNested (fields : List (String × Json)) : Bool :=
  (get? "children" fields).isSome

def fieldsOfRecord (fields : List (String × Json)) : List (String × String) :=
  ((stringAt? "occurs" fields).map fun label => ("occurs", label)).toList ++
  (if (get? "optional" fields).isSome then [("optional", "yes")] else []) ++
  ((stringsAt? "attrs" fields).map fun attrs => ("attrs", "[" ++ ", ".intercalate attrs ++ "]")).toList ++
  if isNested fields then [] else ((stringAt? "text" fields).map fun type => ("text", type)).toList

def headOfRecord (indent name : String) (fields : List (String × Json)) : List String :=
  (indent ++ name ++ ":") ::
    ((fieldsOfRecord fields).map (fun f => indent ++ "  " ++ entry f) ++
      (if isNested fields then
        ((stringAt? "text" fields).map fun type => indent ++ "  mixed: " ++ type).toList
      else []) ++
      ((stringsAt? "children" fields).map fun names =>
        indent ++ "  children: [" ++ ", ".intercalate names ++ "]").toList)

def leafOfRecord (indent name : String) (fields : List (String × Json)) : String :=
  indent ++ name ++ ": \x7b" ++ ", ".intercalate ((fieldsOfRecord fields).map entry) ++ "\x7d"

mutual
def childOfRecord (indent name : String) : Json → List String
  | .object fields =>
    if isNested fields then headOfRecord indent name fields ++ childrenOfRecord (indent ++ "  ") fields
    else [leafOfRecord indent name fields]
  | _ => []

def childrenOfRecord (indent : String) : List (String × Json) → List String
  | [] => []
  | (name, v) :: fields => childOfRecord indent name v ++ childrenOfRecord indent fields
end

def fieldKeys : List String :=
  ["count", "occurs", "optional", "attrs", "children", "text"]

/-- No element below the summary has the name of a field, and siblings have distinct names. -/
inductive Unambiguous : Summary → Prop
  | intro {s : Summary} : (s.children.map (·.name)).Nodup → (∀ c ∈ s.children, c.name ∉ fieldKeys) →
      (∀ c ∈ s.children, Unambiguous c) → Unambiguous s

namespace Unambiguous

variable {s : Summary}

theorem nodup : Unambiguous s → (s.children.map (·.name)).Nodup
  | .intro h _ _ => h

theorem not_mem_names : Unambiguous s → ∀ key ∈ fieldKeys, key ∉ s.children.map (·.name)
  | .intro _ h _, _, hkey, hmem => by
    obtain ⟨c, hc, rfl⟩ := List.mem_map.mp hmem
    exact h c hc hkey

theorem children : Unambiguous s → ∀ c ∈ s.children, Unambiguous c
  | .intro _ _ h => h

end Unambiguous

section
variable {s : Summary} (hs : Unambiguous s)
include hs

end

theorem lines_eq (indent : String) (s : Summary) :
    lines indent s = head indent s ++ childLines (indent ++ "  ") s.children := by
  cases s; rw [lines]

end Outline

end XmlShape
