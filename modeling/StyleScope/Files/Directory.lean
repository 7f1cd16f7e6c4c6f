import StyleScope.Files.Lookup

/-! # Making directories

A directory is made together with those above it that are missing. The path is tried as it is
written first; only if something above it is missing are the paths above it tried, innermost first,
and then the path once more. Dots and slashes at the end of a path thus matter: `a/.` can only be
made where `a` is a directory already.
-/
namespace StyleScope.Files.Tree

/-- Makes a directory where a path leads. What is above it has to be there; slashes at the end of
the path do not count. -/
def makeDirectory (t : Tree) (path : Text) : Except FileError Tree := do
  Path.check path
  let place ← t.follow (Path.withoutSlashes path)
  match t.get? place with
  | some _ => .error .alreadyExists
  | none => .ok (t.put place (.directory []))

/-- What became of a tree, and what went wrong. -/
structure Change where
  tree : Tree
  failure : Option FileError := none
deriving Repr

def ensureDirectory (t : Tree) (path : Text) : Change :=
  match t.makeDirectory path with
  | .ok t => { tree := t }
  | .error e => { tree := t, failure := if t.isDirectory path then none else some e }

/-- Makes a directory where the first path leads. If something above it is missing, the other paths
are made directories first in the same way. -/
def createDirectories (t : Tree) : List Text → Change
  | [] => { tree := t }
  | path :: above =>
    let first := t.ensureDirectory path
    if first.failure = some .notFound then
      let upper := t.createDirectories above
      if upper.failure.isSome then upper else upper.tree.ensureDirectory path
    else first

/-- Makes the directory a path leads to and those above it, where they are missing. The empty path
needs none. Directories that were made stay if one below them fails. -/
def createDirectory (t : Tree) (path : Text) : Change :=
  if path.isEmpty then { tree := t }
  else t.createDirectories (path :: Path.pathsAbove (Path.components path))

end StyleScope.Files.Tree
