import XmlShape.Path
import XmlShape.Text.Quoted

/-! # File trees -/

namespace XmlShape

inductive FileTree where
  | file (data : ByteArray)
  | directory (entries : List (String × FileTree))

inductive FileErrorKind where
  | noSuchFile
  | permissionDenied
  | notADirectory
  | isADirectory
  | nameTooLong
  /-- A null character in a path; the system is not even asked. -/
  | nullByte
  | other (code : Nat) (text : String)
deriving DecidableEq

structure FileError where
  kind : FileErrorKind
  path : Path
deriving DecidableEq

/-- Whether an error means that nothing stands at a path, or nothing that it could lead to. -/
def FileErrorKind.isAbsence : FileErrorKind → Bool
  | noSuchFile | notADirectory | nullByte => true
  | other code _ => code == 9 || code == 40
  | _ => false

def FileErrorKind.isPermission : FileErrorKind → Bool
  | permissionDenied => true
  | other code _ => code == 1
  | _ => false

def FileError.message (e : FileError) : String :=
  let numbered (code : Nat) (text : String) :=
    "[Errno " ++ toString code ++ "] " ++ text ++ ": " ++ Text.quoted e.path.text
  match e.kind with
  | .noSuchFile => numbered 2 "No such file or directory"
  | .permissionDenied => numbered 13 "Permission denied"
  | .notADirectory => numbered 20 "Not a directory"
  | .isADirectory => numbered 21 "Is a directory"
  | .nameTooLong => numbered 36 "File name too long"
  | .nullByte => "embedded null byte"
  | .other code text => numbered code text

namespace FileTree

def empty : FileTree :=
  directory []

def find? (entries : List (String × FileTree)) (name : String) : Option FileTree :=
  (entries.find? fun e => e.1 == name).map (·.2)

def entries : FileTree → List (String × FileTree)
  | file _ => []
  | directory es => es

def get? : FileTree → List String → Option FileTree
  | t, [] => some t
  | t, name :: names => (find? t.entries name).bind fun u => u.get? names

/-- Sets an entry; a new one comes last. -/
def setEntry (name : String) (t : FileTree) : List (String × FileTree) → List (String × FileTree)
  | [] => [(name, t)]
  | e :: es => if e.1 = name then (name, t) :: es else e :: setEntry name t es

/-- Puts `f` of what stands under the names in its place, with the directories that lead there. -/
def alter (f : Option FileTree → FileTree) : List String → Option FileTree → FileTree
  | [], t => f t
  | name :: names, t =>
    let es := (t.map entries).getD []
    directory (setEntry name (alter f names (find? es name)) es)

def addFile (t : FileTree) (names : List String) (data : ByteArray) : FileTree :=
  alter (fun _ => file data) names (some t)

def addDirectory (t : FileTree) (names : List String) : FileTree :=
  alter (fun u => directory ((u.map entries).getD [])) names (some t)

mutual
/-- All files with their paths, below the path `above`. -/
def files (above : Path) : FileTree → List (String × ByteArray)
  | file data => [(above.text, data)]
  | directory es => filesOf above es

def filesOf (above : Path) : List (String × FileTree) → List (String × ByteArray)
  | [] => []
  | (name, t) :: es => files (above.child name) t ++ filesOf above es
end

/-- The files of `after` that are new or differ from those of `before`. -/
def changes (before after : FileTree) : List (String × ByteArray) :=
  let old := before.files ⟨"", []⟩
  (after.files ⟨"", []⟩).filter fun f => !(old.any fun g => g.1 == f.1 && g.2 == f.2)

end FileTree

end XmlShape
