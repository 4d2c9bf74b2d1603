import XmlShape.FileTree
import XmlShape.ValueSet

/-! # XML files in a directory

Looks into a directory and into those right below it. A directory that may not be listed is an error at the top
and passed over below. -/

namespace XmlShape

/-- What a path leads to, as far as it can be seen. -/
inductive Sight where
  | file
  | directory (names : Except FileErrorKind (List String))

inductive DiscoveryError where
  | notADirectory
  | failed (e : FileError)

namespace Discovery

/-- Whether a name is that of an XML file; nothing need stand before the ending. -/
def isXmlName (name : String) : Bool :=
  ".xml".toList.reverse.isPrefixOf name.toList.reverse

def ascending (names : List String) : List String :=
  (ValueSet.ofList names).toList

def xmlPaths (p : Path) (names : List String) : List String :=
  (ascending (names.filter isXmlName)).map fun name => (p.child name).text

def below (sight : Path → Except FileErrorKind Sight) (p : Path) : Except FileError (List String) :=
  match sight p with
  | .error kind => if kind.isAbsence then .ok [] else .error ⟨kind, p⟩
  | .ok .file => .ok []
  | .ok (.directory (.error kind)) => if kind.isPermission then .ok [] else .error ⟨kind, p⟩
  | .ok (.directory (.ok names)) => .ok (xmlPaths p names)

/-- The paths of everything named like an XML file in a directory, and then in each directory in it. -/
def discover (sight : Path → Except FileErrorKind Sight) (path : String) :
    Except DiscoveryError (List String) :=
  let p := Path.ofString path
  match sight p with
  | .error kind => .error (if kind.isAbsence then .notADirectory else .failed ⟨kind, p⟩)
  | .ok .file => .error .notADirectory
  | .ok (.directory (.error kind)) => .error (.failed ⟨kind, p⟩)
  | .ok (.directory (.ok names)) =>
    match (ascending names).mapM fun name => below sight (p.child name) with
    | .error e => .error (.failed e)
    | .ok found => .ok (xmlPaths p names ++ found.flatten)

end Discovery

end XmlShape
