import StyleScope.Files.Path
import StyleScope.Files.Tree

/-! # Following paths

Paths are followed name by name, from the root if they start with a slash and from the current
directory otherwise. Everything but the last name has to be a directory, and a path that ends with
a slash or a dot has to lead to one. Above the root is the root.
-/
namespace StyleScope.Files

inductive FileError where
  | notFound
  | notDirectory
  | isDirectory
  | alreadyExists
  /-- A path or a name in it is longer than the limit. -/
  | nameTooLong
  /-- A path with a character that no path can have. -/
  | nulCharacter
  /-- The content is no text. -/
  | undecodable
deriving DecidableEq, Repr

def FileError.message : FileError → Text
  | notFound => "No such file or directory (os error 2)".toList
  | notDirectory => "Not a directory (os error 20)".toList
  | isDirectory => "Is a directory (os error 21)".toList
  | alreadyExists => "File exists (os error 17)".toList
  | nameTooLong => "File name too long (os error 36)".toList
  | nulCharacter => "file name contained an unexpected NUL byte".toList
  | undecodable => "stream did not contain valid UTF-8".toList

def Content.read : Content → Except FileError Text
  | text t => .ok t
  | binary => .error .undecodable

def Path.step (place : Place) (segment : Text) : Except FileError Place :=
  match component? segment with
  | some (.name n) =>
    if nameLimit < Text.byteLength n then .error .nameTooLong else .ok (place ++ [n])
  | some .parent => .ok place.dropLast
  | _ => .ok place

def Path.check (path : Text) : Except FileError Unit :=
  if path.isEmpty then .error .notFound
  else if path.contains '\x00' then .error .nulCharacter
  else if pathLimit < Text.byteLength path then .error .nameTooLong
  else .ok ()

namespace Tree

/-- Follows one segment of a path, which only leads on from a directory. -/
def enter (t : Tree) (place : Place) (segment : Text) : Except FileError Place :=
  match t.get? place with
  | none => .error .notFound
  | some (.file _) => .error .notDirectory
  | some (.directory _) => Path.step place segment

/-- Follows a path, whether something stands at its end or not. -/
def follow (t : Tree) (path : Text) : Except FileError Place :=
  (Path.segments path).foldlM t.enter (if Path.isAbsolute path then [] else t.current)

/-- The place a path leads to, if the text can be one. -/
def locate (t : Tree) (path : Text) : Except FileError Place := do
  Path.check path
  t.follow path

def find (t : Tree) (path : Text) : Except FileError Item := do
  match t.get? (← t.locate path) with
  | some item => .ok item
  | none => .error .notFound

def exists? (t : Tree) (path : Text) : Bool := (t.find path).isOk

def isDirectory (t : Tree) (path : Text) : Bool :=
  match t.find path with
  | .ok (.directory _) => true
  | _ => false

def isFile (t : Tree) (path : Text) : Bool :=
  match t.find path with
  | .ok (.file _) => true
  | _ => false

def read (t : Tree) (path : Text) : Except FileError Text := do
  match ← t.find path with
  | .directory _ => .error .isDirectory
  | .file content => content.read

/-- The names in the directory a path leads to, in ascending order. -/
def names (t : Tree) (path : Text) : List Text :=
  match t.find path with
  | .ok item => (item.entries.map Prod.fst).mergeSort Path.nameLe
  | .error _ => []

def write (t : Tree) (path content : Text) : Except FileError Tree := do
  let place ← t.locate path
  match t.get? place with
  | some (.directory _) => .error .isDirectory
  | _ => .ok (t.put place (.file (.text content)))

end Tree
end StyleScope.Files
