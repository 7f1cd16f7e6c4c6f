import StyleScope.Glob.Expand
import StyleScope.Glob.Pattern

/-! # Finding files

A pattern is followed through a file tree component by component. A component of plain characters
leads on without looking at other names; any other is tried on all names of a directory in
ascending order. The entries `.` and `..` are only tried where the component starts with a dot,
and they come first.

Two stars lead to every entry at any depth below, each directory before what is in it; at the end
of a pattern they match directories only.
-/
namespace StyleScope.Glob
open Files

/-- The path of an entry; paths within the current directory start with its name. -/
def entryPath (dir name : Text) : Text :=
  if Path.isCurrent dir then name else Path.join dir name

/-- What is found at each entry below a directory, at most `depth` deep, an entry before those in
it. -/
def below (t : Tree) (found : Text → Text → List Text) : Nat → Text → List Text
  | 0, _ => []
  | depth + 1, dir =>
    (t.names dir).flatMap fun name =>
      let path := entryPath dir name
      found path name ++ if t.isDirectory path then below t found depth path else []

def specials (tokens : List Token) : List Text :=
  if tokens.head? = some (.char '.') then
    [['.', '.'], ['.']].filter (matchTokens tokens)
  else []

/-- The paths that components lead to from a path. The tree is at most `depth` deep. -/
def search (t : Tree) (depth : Nat) (directoryOnly : Bool) : List (List Token) → Text → List Text
  | [], path => if directoryOnly && !t.isDirectory path then [] else [path]
  | component :: rest, path =>
    match literal? component with
    | some name =>
      let next := entryPath path name
      let special := name = ['.'] || name = ['.', '.']
      if (if special then t.isDirectory path else t.exists? next) then
        search t depth directoryOnly rest next
      else []
    | none =>
      if !t.isDirectory path then []
      else if isRecursive component then
        match rest with
        | [] =>
          below t (fun p _ => if t.isDirectory p then [p] else []) depth path
        | last :: others =>
          below t
            (fun p name =>
              if matchTokens last name then search t depth directoryOnly others p else [])
            depth path
      else
        ((specials component).flatMap fun name =>
            search t depth directoryOnly rest (Path.join path name)) ++
          (t.names path).flatMap fun name =>
            if matchTokens component name then
              search t depth directoryOnly rest (entryPath path name)
            else []

/-- The paths a pattern matches. No tree is deeper than it has places. -/
def Pattern.find (t : Tree) (p : Pattern) : List Text :=
  search t t.contents.length p.directoryOnly p.components (if p.absolute then ['/'] else ['.'])

/-- The library that the program runs with. Every directory of a tree can be read. -/
def matcher : Library where
  find t pattern :=
    match Pattern.ofText pattern with
    | .error e => .error ⟨e.message⟩
    | .ok p => .ok ((p.find t).map .ok)

end StyleScope.Glob
