import StyleScope.Animation.Value
import StyleScope.Stylesheet.Visit

/-! # Renaming keyframes

The keyframes a stylesheet defines are renamed so that they belong to one component, and the
animations that refer to them are renamed along. Names the stylesheet does not define are taken to
be global and stay. All definitions are collected first, so an animation may refer to keyframes
defined after it.

A table takes the name of keyframes to their name within a component. Entries stand in the order
in which their names were first entered; entering a name again replaces its value in place.
-/
namespace StyleScope.Animation
open Text Stylesheet

structure Table where
  /-- Names with their scoped names. -/
  entries : List (Text × Text) := []
deriving DecidableEq, Repr, Inhabited

namespace Table

def insert (t : Table) (name value : Text) : Table := ⟨Entries.insert name value t.entries⟩

def get? (t : Table) (name : Text) : Option Text := t.entries.lookup name

def contains (t : Table) (name : Text) : Bool := (t.get? name).isSome

def size (t : Table) : Nat := t.entries.length

def isEmpty (t : Table) : Bool := t.entries.isEmpty

end Table

/-- The name of keyframes within a scope. A scope that starts with `_` or `-` is its own joint. -/
def scopedName (name scope : Text) : Text :=
  match scope with
  | '_' :: _ | '-' :: _ => name ++ scope
  | _ => name ++ '-' :: scope

/-- The name written in the parameters of keyframes, without its quotes. -/
def paramsName (params : Text) : Text :=
  match unquote? params with
  | some (_, name) => name
  | none => params

/-- The parameters of keyframes with the scoped name, in the same quotes. -/
def scopedParams (params scope : Text) : Text :=
  match unquote? params with
  | some (q, name) => quote q (scopedName name scope)
  | none => scopedName params scope

def definesKeyframes (r : AtRule) : Bool := r.isKeyframes && !r.params.isEmpty

def declaredNames (events : List Event) : List Text :=
  events.filterMap fun
    | .atRule r => if definesKeyframes r then some (paramsName r.params) else none
    | _ => none

def tableOf (scope : Text) (names : List Text) : Table :=
  names.foldl (fun t name => t.insert name (scopedName name scope)) {}

/-- Words of the shorthand that never name keyframes. -/
def keywords : List Text :=
  (["inherit", "initial", "revert", "unset",
    "alternate", "alternate-reverse", "normal", "reverse",
    "backwards", "both", "forwards", "none",
    "paused", "running",
    "ease", "ease-in", "ease-in-out", "ease-out", "linear", "step-start", "step-end",
    "infinite"] : List String).map String.toList

/-- The scoped form of a token that names keyframes of the table. -/
def scopedToken? (table : Table) : ValueToken → Option Text
  | .word w => table.get? w
  | .quoted t => do
    let (q, name) ← unquote? t
    return quote q (← table.get? name)
  | _ => none

def renameToken (table : Table) (x : ValueToken) : Text := (scopedToken? table x).getD x.text

/-- The value of `animation-name`: every name of the table is renamed. -/
def renameNames (table : Table) (value : Text) : Text :=
  (valueTokens value).flatMap (renameToken table)

def isKeyword : ValueToken → Bool
  | .word w => keywords.contains w
  | _ => false

/-- Tokens of the shorthand; `done` once the current entry has its name. -/
def renameEntries (table : Table) (done : Bool) : List ValueToken → Text
  | [] => []
  | .comma :: rest => ',' :: renameEntries table false rest
  | x :: rest =>
    if isKeyword x || done then x.text ++ renameEntries table done rest
    else
      match scopedToken? table x with
      | some renamed => renamed ++ renameEntries table true rest
      | none => x.text ++ renameEntries table false rest

/-- The value of `animation`: in each entry between commas the first name of the table that is no
keyword is renamed. -/
def renameShorthand (table : Table) (value : Text) : Text :=
  renameEntries table false (valueTokens value)

def renameDeclaration (table : Table) (d : Declaration) : Declaration :=
  if d.plainProp = "animation-name".toList then { d with value := renameNames table d.value }
  else if d.plainProp = "animation".toList then { d with value := renameShorthand table d.value }
  else d

def renameKeyframes (scope : Text) (r : AtRule) : AtRule :=
  if definesKeyframes r then { r with params := scopedParams r.params scope } else r

/-- Renames the keyframes of a stylesheet and its animations, and returns the names. -/
def renameSheet (scope : Text) (s : Sheet) : Sheet × Table :=
  let table := tableOf scope (declaredNames s.events)
  (s.map { atRule := renameKeyframes scope, declaration := renameDeclaration table }, table)

end StyleScope.Animation
