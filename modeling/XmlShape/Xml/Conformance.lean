import XmlShape.Xml.Scope

/-! # Rules on names and identifiers

A document tree is readable only if its names follow the rules of namespaces, the text of every entity
it refers to does so too, and no two elements have the same identifier. -/

namespace XmlShape.Xml

namespace Scope

def checkDeclaration (p uri : String) : Except SyntaxError Unit :=
  if p = "xml" then
    if uri = xmlNamespace then .ok () else .error (.badNamespace p)
  else if p = "xmlns" || uri = xmlNamespace || uri = declarationNamespace then
    .error (.badNamespace p)
  else if uri = "" then
    if p = "" then .ok () else .error (.badNamespace p)
  else if Uri.isReference uri.toList then .ok ()
  else .error (.badNamespace p)

def checkDeclarations (attributes : List (String × String)) : Except SyntaxError Unit :=
  attributes.forM fun a =>
    match declaredPrefix? a.1 with
    | some p => checkDeclaration p a.2
    | none => pure ()

/-- The prefix of an element or attribute name stands for some namespace. -/
def checkPrefix (scope : Scope) (name : String) : Except SyntaxError Unit :=
  let p := (splitName name).1
  if p = "" || (uri? scope p).isSome then .ok () else .error (.undeclaredPrefix name)

/-- A name with its namespace in place of the prefix; neither part can hold a space. -/
def expandedName (scope : Scope) (name : String) : String :=
  let (p, l) := splitName name
  if p = "" then l else (uri? scope p).getD "" ++ " " ++ l

def firstRepeated? : List String → Option String
  | [] => none
  | name :: names => if names.contains name then some name else firstRepeated? names

def checkDistinct (names : List String) : Except SyntaxError Unit :=
  match firstRepeated? names with
  | some name => .error (.duplicateAttribute name)
  | none => .ok ()

/-- The rules for one tag inside a scope; the result is the scope inside the element. -/
def checkTag (outer : Scope) (name : String) (attributes : List (String × String)) :
    Except SyntaxError Scope := do
  let names := attributes.map (·.1)
  (name :: names).forM fun n => if isQualifiedName n then pure () else throw (.malformedName n)
  checkDistinct names
  checkDeclarations attributes
  let inner := outer.extend (declarations attributes)
  let proper := names.filter fun n => !isNamespaceDeclaration n
  (name :: proper).forM (checkPrefix inner)
  checkDistinct (proper.map (expandedName inner))
  pure inner

end Scope

namespace Node

mutual
def checkNames (scope : Scope) : Node → Except SyntaxError Unit
  | .element name attributes content => do
    let inner ← scope.checkTag name attributes
    checkNamesAll inner content
  | _ => pure ()

def checkNamesAll (scope : Scope) : List Node → Except SyntaxError Unit
  | [] => pure ()
  | n :: ns => do
    checkNames scope n
    checkNamesAll scope ns
end

mutual
/-- The entities that a node refers to, in document order, each with the scope at that place. -/
def references (scope : Scope) : Node → List (String × Scope)
  | .element _ attributes content =>
    referencesAll (scope.extend (Scope.declarations attributes)) content
  | .entity name => [(name, scope)]
  | _ => []

def referencesAll (scope : Scope) : List Node → List (String × Scope)
  | [] => []
  | n :: ns => references scope n ++ referencesAll scope ns
end

/-- Checks the text of an entity where the document first refers to it. `checked` lists the entities
already looked at and `around` those whose text the reference is in; they cannot be more than `depth`. -/
def checkEntity (s : Subset) : Nat → List String → List String → String × Scope →
    Except SyntaxError (List String)
  | 0, _, _, (name, _) => .error (.recursiveEntity name)
  | depth + 1, around, checked, (name, scope) =>
    if around.contains name then .error (.recursiveEntity name)
    else if checked.contains name then .ok checked
    else
      match s.entities.find? name with
      | some (.text replacement) => do
        let content ← ofContent s replacement
        checkNamesAll scope content
        let checked ←
          (referencesAll scope content).foldlM (checkEntity s depth (name :: around)) checked
        pure (name :: checked)
      | _ => .ok checked

def checkEntities (s : Subset) (root : Node) : Except SyntaxError Unit := do
  let _ ← (references [] root).foldlM (checkEntity s (s.entities.declared.length + 1) []) []
  pure ()

/-- A name without a colon, perhaps with space around it. -/
def isIdentifier (value : String) : Bool :=
  match name? (skipSpace value.toList) with
  | some (name, rest) => !name.toList.contains ':' && rest.all isSpace
  | none => false

def identifies (s : Subset) (element name : String) : Bool :=
  name == "xml:id" || ((s.rule? element name).map (·.type)) == some .identifier

mutual
def identifiers (s : Subset) : Node → List (String × String)
  | .element name attributes content =>
    (attributes.filter fun a => identifies s name a.1) ++ identifiersAll s content
  | _ => []

def identifiersAll (s : Subset) : List Node → List (String × String)
  | [] => []
  | n :: ns => identifiers s n ++ identifiersAll s ns
end

def checkIdentifiers (s : Subset) (root : Node) : Except SyntaxError Unit := do
  let ids := identifiers s root
  ids.forM fun a =>
    if a.1 != "xml:id" || isIdentifier a.2 then pure () else throw (.badIdentifier a.2)
  match Scope.firstRepeated? (ids.map (·.2)) with
  | some value => throw (.duplicateIdentifier value)
  | none => pure ()

def check (s : Subset) (root : Node) : Except SyntaxError Unit := do
  checkNames [] root
  checkEntities s root
  checkIdentifiers s root

end Node

end XmlShape.Xml
