import StyleScope.Command.Run

/-! # The program

The outer layer: it takes in the files below the current directory, the arguments and standard
input, runs the command, and carries out what the command decided. Other files are not seen.
-/
namespace StyleScope.Main
open Files

def contentOf (bytes : ByteArray) : Content :=
  match String.fromUTF8? bytes with
  | some s => .text s.toList
  | none => .binary

/-- Takes a directory entry and everything below it into a tree. -/
partial def load (t : Tree) (place : Place) (entry : IO.FS.DirEntry) : IO Tree := do
  let here := place ++ [entry.fileName.toList]
  if ← entry.path.isDir then
    let mut t := t.addDirectory here
    for e in ← entry.path.readDir do
      t ← load t here e
    return t
  else
    return t.addFile here (contentOf (← IO.FS.readBinFile entry.path))

/-- The names that lead from the root to a path. -/
def placeOf (path : String) : Place :=
  (Path.components path.toList).filterMap fun
    | .name n => some n
    | _ => none

/-- The files below the current directory, at their places from the root on. -/
def loadAll : IO Tree := do
  let dir ← IO.currentDir
  let current := placeOf dir.toString
  let mut t : Tree := Tree.addDirectory { current } current
  for e in ← dir.readDir do
    t ← load t current e
  return t

def pathOf (place : Place) : String := String.ofList ('/' :: ['/'].intercalate place)

/-- Carries out the difference between two trees. -/
def store (old new : Tree) : IO Unit := do
  let known := old.contents
  for (place, content) in new.contents do
    if known.lookup place ≠ some content then
      match content with
      | none => IO.FS.createDirAll (pathOf place)
      | some (.text t) => IO.FS.writeFile (pathOf place) (String.ofList t)
      | some .binary => pure ()

/-- Standard input, read only where the command line asks for it. -/
def loadInput (arguments : List Text) : IO Content := do
  if Command.readsInput arguments then
    return contentOf (← (← IO.getStdin).readBinToEnd)
  else return .text []

/-- Never ends, like a run without outcome. -/
partial def stay : IO UInt32 := do
  IO.sleep 1000
  stay

end StyleScope.Main

def main (arguments : List String) : IO UInt32 := do
  let arguments := arguments.map String.toList
  let tree ← StyleScope.Main.loadAll
  let input ← StyleScope.Main.loadInput arguments
  match StyleScope.Command.run StyleScope.Command.libraries tree input arguments with
  | none => StyleScope.Main.stay
  | some o =>
    StyleScope.Main.store tree o.tree
    IO.print (String.ofList o.stdout)
    IO.eprint (String.ofList o.stderr)
    return o.exitCode.toUInt32
