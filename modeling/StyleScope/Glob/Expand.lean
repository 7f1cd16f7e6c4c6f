import StyleScope.Files.Lookup

/-! # Expanding patterns

A library finds the paths that match a pattern, and does nothing else to the files. Here it stands
as a function of the file tree that is not known further; `Search` has the one that the program
runs with.

Patterns are expanded one after the other. Of what is found for a pattern the files are listed that
are not listed yet. A pattern that adds nothing is listed itself.
-/
namespace StyleScope.Glob
open Files

structure LibraryError where
  message : Text
deriving DecidableEq, Repr

structure Library where
  /-- What is found for a pattern, in the order in which it is found, unless the pattern is refused.
  An error among it stands for what could not be looked at. -/
  find : Tree → Text → Except LibraryError (List (Except LibraryError Text))

inductive ExpandError where
  | pattern (pattern : Text) (cause : LibraryError)
  | entry (cause : LibraryError)
deriving DecidableEq, Repr

/-- The paths that lead to files, without those whose components are known and with one path only
of those with the same components. -/
def newFiles (t : Tree) (known : List (List Component)) : List Text → List Text
  | [] => []
  | p :: rest =>
    let components := Path.components p
    if t.isFile p && !known.contains components then
      p :: newFiles t (components :: known) rest
    else newFiles t known rest

/-- The list with the files of one more pattern, or with the pattern itself if it adds none. -/
def addPattern (t : Tree) (listed : List Text) (pattern : Text) (paths : List Text) : List Text :=
  match newFiles t (listed.map Path.components) paths with
  | [] => listed ++ [pattern]
  | added => listed ++ added

/-- The paths that are found for a pattern; the first error among them ends the search. -/
def Library.paths (glob : Library) (t : Tree) (pattern : Text) : Except ExpandError (List Text) :=
  match glob.find t pattern with
  | .error cause => .error (.pattern pattern cause)
  | .ok entries => (entries.mapM id).mapError .entry

def expand (glob : Library) (t : Tree) (patterns : List Text) : Except ExpandError (List Text) :=
  patterns.foldlM
    (fun listed pattern => do return addPattern t listed pattern (← glob.paths t pattern)) []

end StyleScope.Glob
