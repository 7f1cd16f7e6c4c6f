import StyleScope.Basic

/-! # File trees

The files and directories of a machine. A directory holds its entries by name. A place is the list
of names that leads from the root to a file or directory; the empty place is the root itself.
-/
namespace StyleScope.Files

/-- What a file holds: text, or bytes that encode none. -/
inductive Content where
  | text (t : Text)
  | binary
deriving DecidableEq, Repr, Inhabited

inductive Item where
  | file (content : Content)
  | directory (entries : List (Text × Item))
deriving Repr, Inhabited

abbrev Place := List Text

/-- What stands at a place below a file or directory. -/
def Item.get? : Item → Place → Option Item
  | item, [] => some item
  | .file _, _ :: _ => none
  | .directory entries, n :: rest =>
    match entries.lookup n with
    | none => none
    | some item => item.get? rest

def Item.entries : Item → List (Text × Item)
  | file _ => []
  | directory entries => entries

mutual
/-- The places below a file or directory, with the content of the files. -/
def Item.contents (place : Place) : Item → List (Place × Option Content)
  | .file content => [(place, some content)]
  | .directory entries => (place, none) :: entriesContents place entries

def entriesContents (place : Place) : List (Text × Item) → List (Place × Option Content)
  | [] => []
  | (n, item) :: rest => item.contents (place ++ [n]) ++ entriesContents place rest
end

/-- The entries with an item put at a place; directories on the way are made where they are
missing. -/
def putAt (item : Item) : Place → List (Text × Item) → List (Text × Item)
  | [], entries => entries
  | [n], entries => Entries.insert n item entries
  | n :: m :: rest, entries =>
    let inner := ((entries.lookup n).map Item.entries).getD []
    Entries.insert n (.directory (putAt item (m :: rest) inner)) entries

structure Tree where
  /-- What is in the root. -/
  entries : List (Text × Item) := []
  /-- The current directory, where paths start that do not start at the root. -/
  current : Place := []
deriving Repr, Inhabited

namespace Tree

def root (t : Tree) : Item := .directory t.entries

def get? (t : Tree) (place : Place) : Option Item := t.root.get? place

def put (t : Tree) (place : Place) (item : Item) : Tree :=
  { t with entries := putAt item place t.entries }

/-- Adds a directory, unless something stands at its place. -/
def addDirectory (t : Tree) (place : Place) : Tree :=
  if (t.get? place).isSome then t else t.put place (.directory [])

def addFile (t : Tree) (place : Place) (content : Content) : Tree := t.put place (.file content)

/-- All places of the tree, a directory before those in it, with the content of the files. -/
def contents (t : Tree) : List (Place × Option Content) := entriesContents [] t.entries

end Tree
end StyleScope.Files
