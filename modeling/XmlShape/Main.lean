import XmlShape.Command.Run

/-! # The program

Gathers what a run may look at, runs, and hands over what came of it. -/

namespace XmlShape.Main

open Command

def errorKind : IO.Error → FileErrorKind
  | .noFileOrDirectory _ _ _ => .noSuchFile
  | .inappropriateType _ 21 _ => .isADirectory
  | .inappropriateType _ _ _ => .notADirectory
  | .permissionDenied _ 13 _ => .permissionDenied
  | .permissionDenied _ code text => .other code.toNat text
  | .invalidArgument _ 36 _ => .nameTooLong
  | .invalidArgument _ code text => .other code.toNat text
  | e => .other 0 (toString e)

/-- Does what may fail, and says why it did. -/
def attempt {α : Type} (act : IO α) : IO (Except FileErrorKind α) := do
  try
    pure (.ok (← act))
  catch e => pure (.error (errorKind e))

def readFile (path : String) : IO (Except FileError ByteArray) := do
  let p := Path.ofString path
  return (← attempt (IO.FS.readBinFile p.text)).mapError fun kind => ⟨kind, p⟩

def sight (p : Path) : IO (Except FileErrorKind Sight) := do
  let place := (← IO.currentDir) / p.text
  match ← attempt place.metadata with
  | .error kind => return .error kind
  | .ok found =>
    if found.type != .dir then return .ok .file
    let listed ← attempt place.readDir
    return .ok (.directory (listed.map fun entries => entries.toList.map fun e => e.fileName))

/-- Looks at a directory and at all that is in it, and finds the XML files in what it has seen. -/
def findFiles (path : String) : IO (Except DiscoveryError (List String)) := do
  let p := Path.ofString path
  let top ← sight p
  let mut seen := #[(p, top)]
  match top with
  | .ok (.directory (.ok names)) =>
    for name in names do
      seen := seen.push (p.child name, ← sight (p.child name))
  | _ => pure ()
  let sights := seen
  return Discovery.discover
    (fun q => ((sights.find? fun s => s.1 == q).map (·.2)).getD (.error .noSuchFile)) path

def gather (st : Settings) : IO (Files × ByteArray) := do
  let found ←
    match st.directory? with
    | some directory => findFiles directory
    | none => pure (.ok [])
  let wanted :=
    match found with
    | .ok paths => sources st paths
    | .error _ => []
  let mut contents := #[]
  for source in wanted do
    if !isStandardInput source then
      let path := source.getD ""
      contents := contents.push (path, ← readFile path)
  let input ←
    if wanted.any isStandardInput then (← IO.getStdin).readBinToEnd else pure ByteArray.empty
  let read (path : String) : Except FileError ByteArray :=
    match contents.find? fun c => c.1 == path with
    | some c => c.2
    | none => .error ⟨.noSuchFile, Path.ofString path⟩
  return (⟨read, fun _ => found, fun _ => none⟩, input)

def run (files : Files) (input : ByteArray) (args : List String) : Report :=
  Command.run Xml.SyntaxError.message Xml.Decoders.none files input args

/-- Writes the file of a report; the result says why that failed, if it did. -/
def save (report : Report) : IO (Option FileError) := do
  match report.saved with
  | none => return none
  | some (path, text) =>
    let p := Path.ofString path
    match ← attempt (IO.FS.writeFile p.text text) with
    | .ok () => return none
    | .error kind => return some ⟨kind, p⟩

def obstacleText : Obstacle → String
  | .inaccessible e => e.message
  | .unwritable e => e.message
  | .unprintable e => e.message
  | .immeasurable e => e.message

def hand (report : Report) : IO UInt32 := do
  (← IO.getStderr).putStr report.messages
  (← IO.getStdout).putStr report.output
  match report.status with
  | .ok n => return n.toUInt32
  | .error o =>
    (← IO.getStderr).putStrLn (obstacleText o)
    return 1

end XmlShape.Main

def main (args : List String) : IO UInt32 := do
  let (files, input) ←
    match XmlShape.Command.readArguments args with
    | .ok st => XmlShape.Main.gather st
    | .error _ =>
      pure (XmlShape.Command.Files.ofSystem ⟨XmlShape.FileTree.empty, [], fun _ => none⟩, ByteArray.empty)
  let report := XmlShape.Main.run files input args
  match ← XmlShape.Main.save report with
  | none => XmlShape.Main.hand report
  | some e => XmlShape.Main.hand (XmlShape.Main.run { files with obstacle := fun _ => some e } input args)
