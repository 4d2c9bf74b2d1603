import XmlShape.Discovery

/-! # File systems

All files, from the top, as a program finds them that runs in one of the directories. What the system refuses it
is apart from what the files are. -/

namespace XmlShape

inductive Request where
  /-- Taking a path as one, before any of its names is looked up. -/
  | follow (p : Path)
  /-- Looking up a name in the directory at a place. -/
  | enter (place : List String) (name : String)
  | list (place : List String)
  | read (place : List String)
  | write (place : List String)
deriving DecidableEq

structure FileSystem where
  top : FileTree
  /-- The place of the current directory. -/
  here : List String
  refuses : Request → Option FileErrorKind

/-- What is refused where all may be read and written: a name has at most 255 bytes and a path has fewer than
4096. -/
def Request.limits : Request → Option FileErrorKind
  | follow p =>
    if p.text.toList.contains '\x00' then some .nullByte
    else if 4096 ≤ p.text.utf8ByteSize then some .nameTooLong
    else none
  | enter _ name => if 255 < name.utf8ByteSize then some .nameTooLong else none
  | _ => none

namespace FileSystem

/-- Where names lead from a place. The last need not exist; nothing is above the top. -/
def walk (s : FileSystem) : List String → List String → Except FileErrorKind (List String)
  | place, [] => .ok place
  | place, name :: names =>
    match s.top.get? place with
    | none => .error .noSuchFile
    | some (.file _) => .error .notADirectory
    | some (.directory _) =>
      match s.refuses (.enter place name) with
      | some kind => .error kind
      | none => walk s (if name = ".." then place.dropLast else place ++ [name]) names

def start (s : FileSystem) (p : Path) : List String :=
  if p.root = "" then s.here else []

/-- Where a path leads. Nothing is to be found from a current directory that is gone. -/
def locate (s : FileSystem) (p : Path) : Except FileErrorKind (List String) :=
  match s.refuses (.follow p), s.top.get? (s.start p) with
  | some kind, _ => .error kind
  | none, some (.directory _) => s.walk (s.start p) p.parts
  | none, _ => .error .noSuchFile

/-- The place that a path leads to, with what stands there. -/
def lookup (s : FileSystem) (p : Path) : Except FileErrorKind (List String × FileTree) :=
  match s.locate p with
  | .error kind => .error kind
  | .ok place =>
    match s.top.get? place with
    | some t => .ok (place, t)
    | none => .error .noSuchFile

def read (s : FileSystem) (path : String) : Except FileError ByteArray :=
  let p := Path.ofString path
  match s.lookup p with
  | .error kind => .error ⟨kind, p⟩
  | .ok (place, t) =>
    match s.refuses (.read place), t with
    | some kind, _ => .error ⟨kind, p⟩
    | none, .file data => .ok data
    | none, .directory _ => .error ⟨.isADirectory, p⟩

def save (s : FileSystem) (path : String) (data : ByteArray) : Except FileError FileSystem :=
  let p := Path.ofString path
  match s.locate p with
  | .error kind => .error ⟨kind, p⟩
  | .ok place =>
    match s.top.get? place, s.refuses (.write place) with
    | some (.directory _), _ => .error ⟨.isADirectory, p⟩
    | _, some kind => .error ⟨kind, p⟩
    | _, none => .ok { s with top := s.top.addFile place data }

def sight (s : FileSystem) (p : Path) : Except FileErrorKind Sight :=
  match s.lookup p with
  | .error kind => .error kind
  | .ok (_, .file _) => .ok .file
  | .ok (place, .directory es) =>
    match s.refuses (.list place) with
    | some kind => .ok (.directory (.error kind))
    | none => .ok (.directory (.ok (es.map (·.1))))

def discover (s : FileSystem) (path : String) : Except DiscoveryError (List String) :=
  Discovery.discover s.sight path

end FileSystem

end XmlShape
