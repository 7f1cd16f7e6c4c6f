import StyleScope.Scope.Context
import StyleScope.Selector.Lexeme
import StyleScope.Selector.Segment

/-! # Scoping selectors

A selector is confined to a component by putting the element token into its compound parts, after
the type selector of a part or else after its first id, class or attribute test.

Three pseudo selectors cross the boundary of the component and are written out instead: `:host`
becomes the host token, `:host-context(a)` becomes `a` and the host token below it, and
`::slotted(a)` becomes `a` below a slot. A part with one of them gets no element token.

A part that starts with `global(...)` or `local(...)` escapes from scoping and is not counted
among the parts. A malformed selector is left as it stands.
-/
namespace StyleScope.Scope
open Text Selector

/-- A pseudo selector that crosses the boundary of the component. -/
inductive Boundary where
  | host
  | hostContext
  | slotted
deriving DecidableEq, Repr

/-- The boundary a fragment crosses. The first two are pseudo classes; `slotted` is a pseudo
element and needs arguments. -/
def boundary? : Fragment → Option Boundary
  | .pseudo colons name =>
    if colons = 1 then
      if sameName name "host".toList then some .host
      else if sameName name "host-context".toList then some .hostContext
      else none
    else none
  | .function colons name _ _ =>
    if colons = 1 then
      if sameName name "host".toList then some .host
      else if sameName name "host-context".toList then some .hostContext
      else none
    else if sameName name "slotted".toList then some .slotted
    else none
  | _ => none

/-- The host token with the refinement of `:host(...)`, whose type selector stays in front. -/
def hostText (ctx : Context) : List Fragment → Text
  | [] => ctx.hostToken
  | f :: fs =>
    if f.isType then f.text ++ ctx.hostToken ++ render fs
    else ctx.hostToken ++ render (f :: fs)

/-- The host token below the ancestor of `:host-context(...)`. -/
def hostContextText (ctx : Context) (ancestor : List Fragment) : Text :=
  (if ancestor.isEmpty then [] else render ancestor ++ [' ']) ++ ctx.hostToken

def slotSelector : Text := "slot[slotted]".toList

/-- The content of `::slotted(...)` directly below a slot of the component. -/
def slottedText (ctx : Context) (content : List Fragment) : Text :=
  slotSelector ++ ctx.elementToken ++ " > ".toList ++ render content

def expandFragment (ctx : Context) (f : Fragment) : Text :=
  match boundary? f with
  | some .host => hostText ctx f.trimmedArguments
  | some .hostContext => hostContextText ctx f.trimmedArguments
  | some .slotted => slottedText ctx f.trimmedArguments
  | none => f.text

/-- Puts a token after the first fragment that is an anchor. -/
def markAfter (anchor : Fragment → Bool) (token : Text) : List Fragment → Text
  | [] => []
  | f :: fs =>
    if anchor f then f.text ++ token ++ render fs else f.text ++ markAfter anchor token fs

/-- Whether the element token can stand after a fragment of a part that has a type selector or has
none. -/
def isAnchor (typed : Bool) (f : Fragment) : Bool := if typed then f.isType else f.isScopable

/-- A compound part, marked if it is `selected`. -/
def scopePart (ctx : Context) (selected : Bool) (part : List Fragment) : Text :=
  if part.any fun f => (boundary? f).isSome then part.flatMap (expandFragment ctx)
  else if selected then markAfter (isAnchor (part.any Fragment.isType)) ctx.elementToken part
  else render part

/-- A part that starts with an escape: its arguments, for `local` below the host, and the rest. -/
def escapeText (ctx : Context) (e : Escape) : List Fragment → Text
  | [] => []
  | f :: fs =>
    (match e with
      | .global => []
      | .local => ctx.hostToken ++ [' ']) ++ render f.trimmedArguments ++ render fs

def isCounted : Segment → Bool
  | .part fs => (escape? fs).isNone
  | .separator _ => false

/-- Segments in their scoped form, the next counted part being at place `k` of `n`. -/
def scopeSegments (ctx : Context) (n : Nat) (k : Nat) : List Segment → Text
  | [] => []
  | .separator f :: rest => f.text ++ scopeSegments ctx n k rest
  | .part fs :: rest =>
    match escape? fs with
    | some e => escapeText ctx e fs ++ scopeSegments ctx n k rest
    | none => scopePart ctx (ctx.parts.selects k n) fs ++ scopeSegments ctx n (k + 1) rest

/-- A selector that is no list, confined to the component. -/
def scopeSelector (ctx : Context) (selector : Text) : Text :=
  let segments := segment (tokenize selector)
  if isMalformed segments then selector
  else scopeSegments ctx (segments.countP isCounted) 0 segments

/-- A member of a selector list; the blanks around it stay. -/
def scopeMember (ctx : Context) (m : Text) : Text :=
  if isBlankText m then m
  else leadingBlanks m ++ scopeSelector ctx (trim m) ++ trailingBlanks m

/-- A selector list, each member confined to the component on its own. -/
def scopeList (ctx : Context) (list : Text) : Text :=
  joinMembers ((members list).map (scopeMember ctx))

end StyleScope.Scope
