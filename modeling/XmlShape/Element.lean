/-! # Elements

An XML element as the analyses see it: its name and attributes as written, its child elements, the
character data directly inside it, and the namespace declarations it makes itself. -/

namespace XmlShape

structure Element where
  name : String
  attributes : List (String × String)
  children : List Element
  text : String
  namespaces : List (String × String)
deriving Inhabited

/-- The names of attributes that declare a namespace. -/
def isNamespaceDeclaration (name : String) : Bool :=
  name == "xmlns" || "xmlns:".toList.isPrefixOf name.toList

/-- The attributes that are not namespace declarations. -/
def properAttributes (attributes : List (String × String)) : List (String × String) :=
  attributes.filter fun a => !isNamespaceDeclaration a.1

namespace Element

mutual
/-- The number of elements in the tree, its root included. -/
def size : Element → Nat
  | ⟨_, _, children, _, _⟩ => 1 + sizeAll children

def sizeAll : List Element → Nat
  | [] => 0
  | e :: es => e.size + sizeAll es
end

mutual
/-- The number of levels in the tree; an element without children has one. -/
def height : Element → Nat
  | ⟨_, _, children, _, _⟩ => 1 + heightAll children

def heightAll : List Element → Nat
  | [] => 0
  | e :: es => max e.height (heightAll es)
end

/-- What holds of an element as soon as it holds of its children holds of all elements. -/
theorem tree_induction {P : Element → Prop} (step : ∀ e : Element, (∀ c ∈ e.children, P c) → P e)
    (e : Element) : P e :=
  step e fun c _ => tree_induction step c
termination_by sizeOf e
decreasing_by
  have := List.sizeOf_lt_of_mem ‹c ∈ e.children›
  cases e
  simp only [Element.mk.sizeOf_spec] at *
  omega

end Element

end XmlShape
