import XmlShape.Drawing
import XmlShape.Outline.Record
import XmlShape.Schema.Markup
import XmlShape.Source
import XmlShape.Summary.Merge
import XmlShape.Summary.Siblings

/-! # Sessions

A session keeps summaries under names and works on them step by step. A snapshot stays attached to
its summary and to the summaries below it: their counts and texts are the last ones that each of
them had, be it in its own place or in that of a summary that took it over. All else in a snapshot is
as it was when the snapshot was taken. -/

namespace XmlShape

structure Snapshot where
  name : String
  counts : List Int
  texts : List String
  instances : Int
  mixed : Bool
  type : SampleType
  attributes : List AttributeSummary
  children : List Snapshot
deriving Inhabited

mutual
/-- The snapshot of a summary whose counts and texts are shown as `latest` says for its path. -/
def Snapshot.take (latest : List String → Summary → List Int × List String) (path : List String) :
    Summary → Snapshot
  | ⟨name, counts, mixed, texts, attributes, children⟩ =>
    let shown := latest path ⟨name, counts, mixed, texts, attributes, children⟩
    ⟨name, shown.1, shown.2, total counts, mixed, SampleType.ofSamples texts, attributes,
      Snapshot.takeAll latest path children⟩

def Snapshot.takeAll (latest : List String → Summary → List Int × List String) (path : List String) :
    List Summary → List Snapshot
  | [] => []
  | s :: ss =>
    Snapshot.take latest (path ++ [s.name]) s :: Snapshot.takeAll latest path ss
end

namespace Session

abbrev Shelf := List (String × Summary)

inductive Step where
  | keep (name : String) (s : Summary)
  | build (name : String) (document : Source)
  | record (name key value : String)
  | absorb (name taken : String)
  | merge (name first second : String)
  | compare (name other : String)
  | draw (name : String) (options : Drawing.Options)
  | outline (name : String)
  | json (name : String)
  | schema (name : String)
  | size (name : String)
  | look (name : String)

inductive Failure where
  | unreadable (e : Xml.ReadError)
  | unmergeable (e : Summary.MergeError)
  | unprintable (e : Xml.PrintError)

inductive Reply where
  | snapshot (s : Snapshot)
  | boolean (b : Bool)
  | text (s : String)
  | integer (n : Int)
  | failed (f : Failure)

/-- What a step does to the summaries that were kept before it. -/
inductive Change where
  | nothing
  /-- Another summary now stands under the name. -/
  | replaced (name : String)
  /-- The summary under `taken` went into the one under `name`. -/
  | absorbed (name taken : String)

def get (shelf : Shelf) (name : String) : Summary :=
  ((shelf.find? fun k => k.1 == name).map (·.2)).getD (Summary.empty name)

def set (shelf : Shelf) (name : String) (s : Summary) : Shelf :=
  (name, s) :: shelf.filter fun k => k.1 != name

def descend? : Summary → List String → Option Summary
  | s, [] => some s
  | s, name :: names => (s.child? name).bind fun c => descend? c names

def place? (shelf : Shelf) (name : String) (path : List String) : Option Summary :=
  (shelf.find? fun k => k.1 == name).bind fun k => descend? k.2 path

/-- What is left after the step, what it changed, and its reply if that is no snapshot. -/
def apply (decoders : Xml.Decoders) (shelf : Shelf) : Step → Except Failure (Shelf × Change × Option Reply)
  | .keep name s => .ok (set shelf name s, .replaced name, none)
  | .build name document =>
    match document.read decoders with
    | .ok root => .ok (set shelf name (Summary.ofDocument root), .replaced name, none)
    | .error e => .error (.unreadable e)
  | .record name key value =>
    .ok (set shelf name ((get shelf name).record key value), .nothing, none)
  | .absorb name taken =>
    let s := (get shelf name).absorb (get shelf taken)
    .ok (set (shelf.filter fun k => k.1 != taken) name s, .absorbed name taken, none)
  | .merge name first second =>
    match (get shelf first).merge (get shelf second) with
    | .ok s => .ok (set shelf name s, .replaced name, none)
    | .error e => .error (.unmergeable e)
  | .compare name other =>
    .ok (shelf, .nothing, some (.boolean ((get shelf name).alike (get shelf other))))
  | .draw name options => .ok (shelf, .nothing, some (.text (Drawing.render options (get shelf name))))
  | .outline name => .ok (shelf, .nothing, some (.text (Outline.render (get shelf name))))
  | .json name => .ok (shelf, .nothing, some (.text (Outline.document [get shelf name]).text))
  | .schema name =>
    match Schema.render [get shelf name] with
    | .ok s => .ok (shelf, .nothing, some (.text s))
    | .error e => .error (.unprintable e)
  | .size name => .ok (shelf, .nothing, some (.integer (get shelf name).size))
  | .look _ => .ok (shelf, .nothing, none)

def Step.subject : Step → String
  | .keep name _ | .build name _ | .record name _ _ | .absorb name _ | .merge name _ _
  | .compare name _ | .draw name _ | .outline name | .json name | .schema name | .size name
  | .look name => name

/-- One step of a session: what it changed, what was kept after it, and its reply unless that is a
snapshot. -/
structure Entry where
  step : Step
  change : Change
  shelf : Shelf
  reply : Option Reply

/-- Runs the steps; one that fails changes nothing. -/
def log (decoders : Xml.Decoders) (shelf : Shelf) : List Step → List Entry
  | [] => []
  | step :: steps =>
    match apply decoders shelf step with
    | .ok (next, change, reply) => ⟨step, change, next, reply⟩ :: log decoders next steps
    | .error f => ⟨step, .nothing, shelf, some (.failed f)⟩ :: log decoders shelf steps

/-- What becomes of a summary that stands on `shelf` under `name` at `path`, in the steps that follow.
It stays where it is until its name is used anew or it is taken over; the parts for which the summary
that takes it over has no place yet go on there. -/
def latest (shelf : Shelf) (name : String) (path : List String) :
    List Entry → Option Summary
  | [] => place? shelf name path
  | e :: es =>
    match e.change with
    | .nothing => latest e.shelf name path es
    | .replaced other =>
      if other = name then place? shelf name path else latest e.shelf name path es
    | .absorbed into taken =>
      if taken = name then
        if path.isEmpty || (place? shelf into path).isSome then place? shelf name path
        else latest e.shelf into path es
      else latest e.shelf name path es

/-- The reply to a step that is followed by the entries `later`. -/
def Entry.answer (e : Entry) (later : List Entry) : Reply :=
  match e.reply with
  | some r => r
  | none =>
    let name := e.step.subject
    let shown (path : List String) (s : Summary) : List Int × List String :=
      let last := (latest e.shelf name path later).getD s
      (last.counts, last.texts)
    .snapshot (Snapshot.take shown [] (get e.shelf name))

def answers : List Entry → List Reply
  | [] => []
  | e :: es => e.answer es :: answers es

def run (decoders : Xml.Decoders) (steps : List Step) : List Reply :=
  answers (log decoders [] steps)

end Session

end XmlShape
