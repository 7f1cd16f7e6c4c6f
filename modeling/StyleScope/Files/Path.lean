import StyleScope.Basic

/-! # Paths

A path is a text of names separated by slashes. Two paths are the same when their components are:
repeated slashes and dots other than a leading one do not count. The length of a path and of each
name in it is limited, in bytes.
-/
namespace StyleScope.Files

inductive Component where
  | root
  /-- A dot at the start of a path. -/
  | current
  /-- Two dots. -/
  | parent
  | name (text : Text)
deriving DecidableEq, Repr

namespace Path

/-- The pieces of a path between slashes. -/
def segments : Text → List Text
  | [] => [[]]
  | c :: r =>
    if c = '/' then [] :: segments r
    else
      match segments r with
      | s :: rest => (c :: s) :: rest
      | [] => [[c]]

/-- A segment that names a component; dots and empty segments name none. -/
def component? (s : Text) : Option Component :=
  if s = [] ∨ s = ['.'] then none
  else if s = ['.', '.'] then some .parent
  else some (.name s)

/-- The components of a path, by which paths are compared. -/
def components (p : Text) : List Component :=
  let first : List Component :=
    match segments p with
    | ['.'] :: _ => [.current]
    | [] :: _ :: _ => [.root]
    | _ => []
  first ++ (segments p).filterMap component?

/-- The name of the file a path leads to. -/
def fileName? (p : Text) : Option Text :=
  match (components p).getLast? with
  | some (.name n) => some n
  | _ => none

/-- The order of names: by their characters, and a name before the longer ones it begins. -/
def nameLe : Text → Text → Bool
  | [], _ => true
  | _ :: _, [] => false
  | a :: r, b :: s => a.toNat < b.toNat || (a = b && nameLe r s)

def join (dir name : Text) : Text :=
  if dir.isEmpty then name
  else if dir.getLast? = some '/' then dir ++ name
  else dir ++ '/' :: name

/-- The path leads to the current directory itself. -/
def isCurrent (p : Text) : Bool := components p = [.current]

def isAbsolute (p : Text) : Bool := p.head? = some '/'

/-- The longest name, in bytes. -/
def nameLimit : Nat := 255

/-- The longest path, in bytes. -/
def pathLimit : Nat := 4095

def componentText : Component → Text
  | .root => []
  | .current => ['.']
  | .parent => ['.', '.']
  | .name n => n

def ofComponents : List Component → Text
  | [.root] => ['/']
  | cs => ['/'].intercalate (cs.map componentText)

/-- The paths above the one with the given components, innermost first. -/
def pathsAbove (cs : List Component) : List Text :=
  ((List.range (cs.length - 1)).map fun n => ofComponents (cs.take (n + 1))).reverse

/-- The path without the slashes at its end, unless it has nothing else. -/
def withoutSlashes (p : Text) : Text :=
  let body := (p.reverse.dropWhile (· = '/')).reverse
  if body.isEmpty then p else body

end Path
end StyleScope.Files
