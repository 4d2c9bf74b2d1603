import XmlShape.Command.Usage
import XmlShape.Tags
import XmlShape.Text.Digit
import XmlShape.Text.Quoted

/-! # Reading the command line

The arguments are a view, switches and files. A long name may be shortened as long as one switch alone
goes by it. Files are the first unbroken run of arguments that are no switches; whatever is left over
is reported after all else has been read. -/

namespace XmlShape.Command

structure Settings where
  view : View
  files : List String
  directory : Option String
  output : Option String
  verbose : Bool
  depth : Option Int
  attributes : Bool
  counts : Bool
  json : Bool
  order : TagCount.Order
  allValues : Bool

def Settings.start (view : View) : Settings :=
  ⟨view, [], none, none, false, none, true, true, false, .byCount, false⟩

inductive UsageError where
  | ambiguous (written : String) (names : List String)
  | missingValue (s : Switch)
  | unwantedValue (s : Switch) (value : String)
  | noInteger (s : Switch) (value : String)
  | noChoice (title value : String) (choices : List String)
  | missingView
  | leftOver (arguments : List String)

def UsageError.message : UsageError → String
  | ambiguous written names =>
    "ambiguous option: " ++ written ++ " could match " ++ ", ".intercalate names
  | missingValue s => "argument " ++ s.title ++ ": expected one argument"
  | unwantedValue s value =>
    "argument " ++ s.title ++ ": ignored explicit argument " ++ Text.quoted value
  | noInteger s value => "argument " ++ s.title ++ ": invalid int value: " ++ Text.quoted value
  | noChoice title value choices =>
    "argument " ++ title ++ ": invalid choice: " ++ Text.quoted value ++ " (choose from " ++
      ", ".intercalate (choices.map Text.quoted) ++ ")"
  | missingView => "the following arguments are required: command"
  | leftOver arguments => "unrecognized arguments: " ++ " ".intercalate arguments

/-- Why reading ends before the settings are complete. -/
inductive Stop where
  | help (view : Option View)
  | wrong (view : Option View) (e : UsageError)

/-- A value written together with its switch, perhaps behind an equals sign. -/
structure Attached where
  behindEquals : Bool
  text : String

inductive Word where
  /-- A file, or the value of a switch before it. -/
  | plain
  /-- The mark after which all words are plain. -/
  | mark
  | switch (s : Switch) (name : String) (attached : Option Attached)
  | unknown

/-- The name before an equals sign, and the text behind it if there is one. -/
def splitEquals (cs : List Char) : List Char × Option (List Char) :=
  match cs.span (· != '=') with
  | (name, '=' :: text) => (name, some text)
  | (name, _) => (name, none)

def named (ss : List Switch) : List (String × Switch) :=
  ss.flatMap fun s => s.names.map fun name => (name, s)

def findName? (ss : List Switch) (name : String) : Option Switch :=
  ((named ss).find? fun n => n.1 == name).map (·.2)

/-- Digits after a minus sign, perhaps with a decimal point before the last of them. -/
def isNegativeNumber (s : String) : Bool :=
  let isDigit (c : Char) : Bool := (Text.decimalDigit? c).isSome
  let cs := if s.toList.getLast? = some '\n' then s.toList.dropLast else s.toList
  match cs with
  | '-' :: cs =>
    match cs.dropWhile isDigit with
    | [] => !cs.isEmpty
    | '.' :: ds => !ds.isEmpty && ds.all isDigit
    | _ => false
  | _ => false

/-- The switches that a word starting with a hyphen may shorten or run together with a value. -/
def candidates (ss : List Switch) (written : String) : List (String × Switch × Option Attached) :=
  match written.toList with
  | '-' :: '-' :: _ =>
    let (name, value) := splitEquals written.toList
    let attached := value.map fun v => Attached.mk true (String.ofList v)
    (named ss).filterMap fun n =>
      if name.isPrefixOf n.1.toList then some (n.1, n.2, attached) else none
  | '-' :: c :: rest =>
    (named ss).filterMap fun n =>
      if n.1.toList = ['-', c] then some (n.1, n.2, some ⟨false, String.ofList rest⟩)
      else if written.toList.isPrefixOf n.1.toList then some (n.1, n.2, none)
      else none
  | _ => []

def classify (ss : List Switch) (written : String) : Except UsageError Word :=
  match written.toList with
  | [] => .ok .plain
  | ['-', '-'] => .ok .mark
  | [_] => .ok .plain
  | '-' :: _ =>
    match findName? ss written with
    | some s => .ok (.switch s written none)
    | none =>
      let (name, value) := splitEquals written.toList
      match value, findName? ss (String.ofList name) with
      | some v, some s => .ok (.switch s (String.ofList name) (some ⟨true, String.ofList v⟩))
      | _, _ =>
        match candidates ss written with
        | [(name, s, attached)] => .ok (.switch s name attached)
        | [] =>
          if isNegativeNumber written || written.toList.contains ' ' then .ok .plain
          else .ok .unknown
        | several => .error (.ambiguous written (several.map (·.1)))
  | _ => .ok .plain

def classifyAll (ss : List Switch) : List String → Except UsageError (List (String × Word))
  | [] => .ok []
  | w :: ws => do
    match ← classify ss w with
    | .mark => pure ((w, .mark) :: ws.map fun w => (w, .plain))
    | word => do
      let words ← classifyAll ss ws
      pure ((w, word) :: words)

/-- What a word with a switch asks for: the switches that go without a value, the one that has a value
or needs the next word as one, and what could not be made out. -/
structure Bundle where
  flags : List Switch
  valued : Option (Switch × Option String)
  leftOver : Option String

/-- Takes apart a switch and what is written together with it. Short switches without a value may be
run together. The rest of a run has at most `fuel` characters. -/
def unbundle (ss : List Switch) : Nat → Switch → String → Option Attached → Except UsageError Bundle
  | _, s, _, none =>
    if s.value.isSome then .ok ⟨[], some (s, none), none⟩ else .ok ⟨[s], none, none⟩
  | 0, s, _, some a => .error (.unwantedValue s a.text)
  | fuel + 1, s, name, some a =>
    if s.value.isSome then .ok ⟨[], some (s, some a.text), none⟩
    else
      match name.toList, a.text.toList with
      | ['-', _], c :: cs =>
        if a.behindEquals || c = '-' then .error (.unwantedValue s a.text)
        else
          match findName? ss (String.ofList ['-', c]) with
          | none => .ok ⟨[s], none, some ("-" ++ a.text)⟩
          | some t => do
            let attached :=
              match cs with
              | [] => none
              | '=' :: cs => some ⟨true, String.ofList cs⟩
              | cs => some ⟨false, String.ofList cs⟩
            let b ← unbundle ss fuel t (String.ofList ['-', c]) attached
            pure { b with flags := s :: b.flags }
      | _, _ => .error (.unwantedValue s a.text)

/-- Sets what a switch without a value stands for. -/
def applyFlag (st : Settings) (s : Switch) : Except Stop Settings :=
  match s.topic with
  | .help => .error (.help (some st.view))
  | .verbose => .ok { st with verbose := true }
  | .noAttributes => .ok { st with attributes := false }
  | .noCounts => .ok { st with counts := false }
  | .json => .ok { st with json := true }
  | .allValues => .ok { st with allValues := true }
  | _ => .ok st

def applyValue (st : Settings) (s : Switch) (value : String) : Except Stop Settings :=
  match s.topic with
  | .directory => .ok { st with directory := some value }
  | .output => .ok { st with output := some value }
  | .depth =>
    match Text.integer? value with
    | some n => .ok { st with depth := some n }
    | none => .error (.wrong (some st.view) (.noInteger s value))
  | .order =>
    match TagCount.Order.ofName? value with
    | some o => .ok { st with order := o }
    | none => .error (.wrong (some st.view) (.noChoice s.title value Switch.orderNames))
  | _ => .ok st

/-- The run of files before, within and after it. -/
inductive FileRun where
  | ahead
  | within
  | over
deriving DecidableEq

structure Reading where
  settings : Settings
  run : FileRun
  leftOver : List String

namespace Reading

def plain (r : Reading) (w : String) : Reading :=
  if r.run = .over then { r with leftOver := r.leftOver ++ [w] }
  else { r with settings := { r.settings with files := r.settings.files ++ [w] }, run := .within }

def mark (r : Reading) (w : String) : Reading :=
  if r.run = .over then { r with leftOver := r.leftOver ++ [w] } else { r with run := .within }

def interrupt (r : Reading) : Reading :=
  if r.run = .within then { r with run := .over } else r

def leave (r : Reading) (w : Option String) : Reading :=
  { r with leftOver := r.leftOver ++ w.toList }

def wrong {α : Type} (r : Reading) (e : UsageError) : Except Stop α :=
  .error (.wrong (some r.settings.view) e)

def flags (r : Reading) (ss : List Switch) : Except Stop Reading := do
  let settings ← ss.foldlM applyFlag r.settings
  pure { r with settings }

def valued (r : Reading) (s : Switch) (value : String) : Except Stop Reading := do
  let settings ← applyValue r.settings s value
  pure { r with settings }

def words (r : Reading) : List (String × Word) → Except Stop Reading
  | [] => .ok r
  | (w, .plain) :: ws => (r.plain w).words ws
  | (w, .mark) :: ws => (r.mark w).words ws
  | (w, .unknown) :: ws => (r.interrupt.leave (some w)).words ws
  | (w, .switch s name attached) :: ws =>
    let r := r.interrupt
    match unbundle r.settings.view.switches (w.length + 1) s name attached with
    | .error e => r.wrong e
    | .ok b =>
      match b.valued with
      | none => do
        let r ← r.flags b.flags
        (r.leave b.leftOver).words ws
      | some (s, some value) => do
        let r ← r.flags b.flags
        let r ← r.valued s value
        r.words ws
      | some (s, none) =>
        match ws with
        | (value, .plain) :: ws => do
          let r ← r.flags b.flags
          let r ← r.valued s value
          r.words ws
        | _ => r.wrong (.missingValue s)

end Reading

/-- The settings for a view, and the arguments that are left over. -/
def readView (view : View) (args : List String) : Except Stop (Settings × List String) :=
  match classifyAll view.switches args with
  | .error e => .error (.wrong (some view) e)
  | .ok words => do
    let r ← Reading.words ⟨Settings.start view, .ahead, []⟩ words
    pure (r.settings, r.leftOver)

/-- The view and the arguments after it, and before these the words that mean nothing. -/
def readProgram (leftOver : List String) : List String →
    Except Stop (View × List String × List String)
  | [] => .error (.wrong none .missingView)
  | "--" :: [] => .error (.wrong none .missingView)
  | w :: ws =>
    let wrong {α : Type} (e : UsageError) : Except Stop α := .error (.wrong none e)
    match classify [Switch.help] w with
    | .error e => wrong e
    | .ok .unknown => readProgram (leftOver ++ [w]) ws
    | .ok (.switch s name attached) =>
      match unbundle [Switch.help] (w.length + 1) s name attached with
      | .error e => wrong e
      | .ok _ => .error (.help none)
    | .ok _ =>
      match View.ofName? w with
      | some v => .ok (v, ws, leftOver)
      | none => wrong (.noChoice "command" w (View.all.map View.name))

def readArguments (args : List String) : Except Stop Settings := do
  let (view, rest, before) ← readProgram [] args
  let (settings, after) ← readView view rest
  if before.isEmpty && after.isEmpty then pure settings
  else throw (.wrong none (.leftOver (before ++ after)))

end XmlShape.Command
