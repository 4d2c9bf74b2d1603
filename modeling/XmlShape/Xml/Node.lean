import XmlShape.Xml.Subset
import XmlShape.Xml.Token

/-! # Document trees

A document as a tree of nodes with names as written. Comments and instructions are nodes, and so are
references to entities. -/

namespace XmlShape.Xml

inductive Node where
  | element (name : String) (attributes : List (String × String)) (content : List Node)
  | text (s : String)
  | comment (s : String)
  | instruction (target content : String)
  | entity (name : String)

/-- An element whose end tag is still to come. -/
structure Frame where
  name : String
  attributes : List (String × String)
  /-- The content so far, last first. -/
  content : List Node

/-- What the tokens so far amount to. -/
structure Builder where
  standalone : Bool
  subset : Option Subset
  frames : List Frame
  root : Option Node
  expanded : Nat

namespace Builder

def start (standalone : Bool) : Builder :=
  ⟨standalone, none, [], none, 0⟩

def subsetInEffect (b : Builder) : Subset :=
  b.subset.getD Subset.empty

def maxDepth : Nat := 256

def charge (b : Builder) (texts : List (List Char)) : Except SyntaxError Builder :=
  let es := b.subsetInEffect.entities
  if es.declared.isEmpty then .ok b
  else
    let costs := es.costs (es.declared.length + 1)
    let expanded := b.expanded + Entities.cost costs (texts.flatMap Entities.references)
    if expanded ≤ Entities.expansionLimit then .ok { b with expanded }
    else .error .excessiveExpansion

/-- Adds characters as a text node, unless there are none; both lists have the last item first. -/
def addText (pending : List Char) (done : List Node) : List Node :=
  if pending.isEmpty then done else .text (String.ofList pending.reverse) :: done

def addSymbols (es : Entities) (pending : List Char) (done : List Node) :
    List Symbol → Except SyntaxError (List Node)
  | [] => .ok (addText pending done)
  | .raw c :: ss => addSymbols es (c :: pending) done ss
  | .numbered c :: ss => addSymbols es (c :: pending) done ss
  | .entity name :: ss =>
    match Symbol.predefined? name with
    | some c => addSymbols es (c :: pending) done ss
    | none =>
      match es.find? name with
      | some .unparsed => .error (.unusableEntity name)
      | some _ => addSymbols es [] (.entity name :: addText pending done) ss
      | none =>
        if es.incomplete then addSymbols es [] (.entity name :: addText pending done) ss
        else .error (.undeclaredEntity name)

/-- Adds a finished node to the element around it; outside the root only comments and instructions may
stand beside it. -/
def addNode (b : Builder) (n : Node) : Except SyntaxError Builder :=
  match b.frames, n with
  | f :: fs, n => .ok { b with frames := { f with content := n :: f.content } :: fs }
  | [], .comment _ => .ok b
  | [], .instruction _ _ => .ok b
  | [], n => if b.root.isSome then .error .contentOutsideRoot else .ok { b with root := some n }

def openElement (b : Builder) (name : String) (written : List (String × List Char)) :
    Except SyntaxError Builder := do
  if b.frames.isEmpty && b.root.isSome then throw .contentOutsideRoot
  if maxDepth ≤ b.frames.length then throw .tooDeep
  let b ← b.charge (written.map (·.2))
  let attributes ← b.subsetInEffect.attributes name written
  pure { b with frames := ⟨name, attributes, []⟩ :: b.frames }

def closeElement (b : Builder) (name : String) : Except SyntaxError Builder :=
  match b.frames with
  | [] => .error (.mismatchedTag name)
  | f :: fs =>
    if f.name = name then
      { b with frames := fs }.addNode (.element f.name f.attributes f.content.reverse)
    else .error (.mismatchedTag name)

def addContent (b : Builder) (cs : List Char) : Except SyntaxError Builder :=
  match b.frames with
  | [] => if cs.all isSpace then .ok b else .error .contentOutsideRoot
  | f :: fs => do
    if (splitAt? "]]>" cs).isSome then throw .straySectionEnd
    let symbols ← Symbol.read cs
    let b ← b.charge [cs]
    let content ← addSymbols b.subsetInEffect.entities [] f.content symbols
    pure { b with frames := { f with content } :: fs }

def step (b : Builder) : Token → Except SyntaxError Builder
  | .text cs => b.addContent cs
  | .cdata cs =>
    if b.frames.isEmpty then .error .contentOutsideRoot else b.addNode (.text (String.ofList cs))
  | .comment cs => b.addNode (.comment (String.ofList cs))
  | .instruction target cs => b.addNode (.instruction target (String.ofList cs))
  | .opening name attributes isEmpty => do
    let b ← b.openElement name attributes
    if isEmpty then b.closeElement name else pure b
  | .closing name => b.closeElement name
  | .doctype d =>
    if b.frames.isEmpty && b.root.isNone && b.subset.isNone then do
      let subset ← Subset.ofDoctype b.standalone d
      pure { b with subset := some subset }
    else .error .misplacedDoctype

end Builder

/-- The nodes of a text that is to stand inside an element. -/
def Node.ofContent (s : Subset) (cs : List Char) : Except SyntaxError (List Node) := do
  let tokens ← Token.read cs
  let b ← tokens.foldlM Builder.step ⟨false, some s, [⟨"", [], []⟩], none, 0⟩
  match b.frames with
  | [f] => pure f.content.reverse
  | f :: _ => throw (.unclosedElement f.name)
  | [] => throw .noRoot

/-- The root of a document, and the subset in effect for it. -/
def Node.ofTokens (standalone : Bool) (tokens : List Token) : Except SyntaxError (Subset × Node) := do
  let b ← tokens.foldlM Builder.step (Builder.start standalone)
  match b.frames, b.root with
  | f :: _, _ => throw (.unclosedElement f.name)
  | [], none => throw .noRoot
  | [], some root => pure (b.subsetInEffect, root)

end XmlShape.Xml
