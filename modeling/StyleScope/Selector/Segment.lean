import StyleScope.Selector.Fragment
import StyleScope.Text.Cover

/-! # Selector lists and compound parts

The members of a selector list are separated by commas at the top: outside brackets, strings,
comments and escapes. Strings do not end with their line here.

A selector alternates between compound parts, runs of fragments such as `div.note#first`, and the
separators between them. Combinators and whitespace always separate. A comment separates too,
unless it is squeezed between two fragments of one compound, as in `.a/**/.b`.

A selector is malformed when it has no part, a stray bracket or an argument list that is never
closed, two combinators without a part between them, or a combinator at its end.
-/
namespace StyleScope.Selector
open Text

/-- Comments are recognised and strings may run over lines. -/
def listDialect : Dialect := ⟨true, false⟩

def members (t : Text) : List Text :=
  match _h : cutAtTop listDialect ',' t with
  | (m, []) => [m]
  | (m, _ :: r) => m :: members r
termination_by t.length
decreasing_by
  have := Scan.length_cut_snd_le (topScan listDialect ',') {} t
  rw [show (topScan listDialect ',').cut {} t = _ from _h] at this
  exact this

def joinMembers (ms : List Text) : Text := [','].intercalate ms

inductive Segment where
  /-- A compound part, a nonempty run of fragments. -/
  | part (fragments : List Fragment)
  /-- A combinator, whitespace or a comment between parts. -/
  | separator (fragment : Fragment)
deriving Repr

/-- A neighbour that keeps a comment inside its compound part. -/
def Fragment.joins : Option Fragment → Bool
  | none => false
  | some f => !f.isComment && !f.isSeparator

/-- Whether `f` separates parts, given the fragments before and after it. -/
def Fragment.separates (before : Option Fragment) (f : Fragment) (after : Option Fragment) : Bool :=
  if f.isComment then !(joins before && joins after) else f.isSeparator

namespace Segment

/-- Puts a fragment in front of the segments that follow it. -/
def attach (f : Fragment) (separates : Bool) (rest : List Segment) : List Segment :=
  if separates then separator f :: rest
  else
    match rest with
    | part fs :: rest' => part (f :: fs) :: rest'
    | _ => part [f] :: rest

def fragments : Segment → List Fragment
  | part fs => fs
  | separator f => [f]

def isPart : Segment → Bool
  | part _ => true
  | separator _ => false

end Segment

/-- The segments of fragments that stand after `before`. -/
def segmentAfter (before : Option Fragment) : List Fragment → List Segment
  | [] => []
  | f :: fs => Segment.attach f (f.separates before fs.head?) (segmentAfter (some f) fs)

/-- Groups fragments into compound parts and the separators between them. -/
def segment (fs : List Fragment) : List Segment := segmentAfter none fs

/-- A part is unbalanced, or a combinator follows another or ends the segments; `pending` when a
combinator still waits for its part. -/
def isBroken (pending : Bool) : List Segment → Bool
  | [] => pending
  | .part fs :: rest => fs.any Fragment.isUnbalanced || isBroken false rest
  | .separator (.combinator _) :: rest => pending || isBroken true rest
  | .separator _ :: rest => isBroken pending rest

/-- A selector that is left as it stands. -/
def isMalformed (segments : List Segment) : Bool :=
  !segments.any Segment.isPart || isBroken false segments

inductive Escape where
  | global
  | local
deriving DecidableEq, Repr

/-- The escape a fragment stands for: a pseudo selector named `global` or `local` with arguments. -/
def Fragment.escape? : Fragment → Option Escape
  | .function _ name _ _ =>
    if sameName name "global".toList then some .global
    else if sameName name "local".toList then some .local
    else none
  | _ => none

def escape? (part : List Fragment) : Option Escape := part.head?.bind Fragment.escape?

end StyleScope.Selector
