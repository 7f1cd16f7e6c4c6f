import StyleScope.Basic
import StyleScope.Text.Scan

/-! # Covered and exposed characters

Inside strings, comments and behind a backslash a character has no structural meaning: it is
*covered*. `Cover` is the state of an automaton that reads one character at a time and knows
whether the next one is covered. Scans differ in what they know: a `Dialect` tells whether
comments are recognised and whether a string ends with its line.

`Nesting` adds the depth of round and square brackets, closing brackets in excess being ignored.
A character is at the *top* when it is exposed and outside all brackets.
-/
namespace StyleScope.Text

/-- What a scan recognises besides strings and escapes. -/
structure Dialect where
  /-- Comments cover their content. -/
  comments : Bool
  /-- A newline ends a string that is still open. -/
  lineStrings : Bool
deriving DecidableEq, Repr

/-- What covers the next character. -/
inductive Cover where
  /-- Nothing. -/
  | plain
  /-- Nothing, and a star would open a comment. -/
  | slash
  /-- A backslash outside strings. -/
  | escape
  /-- A string between single quotes. -/
  | single
  /-- A backslash in a string between single quotes. -/
  | singleEscape
  /-- A string between double quotes. -/
  | double
  /-- A backslash in a string between double quotes. -/
  | doubleEscape
  /-- A comment. -/
  | comment
  /-- A comment, and a slash would close it. -/
  | star
deriving DecidableEq, Repr

namespace Cover

/-- The next character has its structural meaning. -/
def exposes : Cover → Bool
  | plain | slash => true
  | _ => false

def afterExposed (k : Dialect) (c : Char) : Cover :=
  if c = '\\' then escape
  else if c = '\'' then single
  else if c = '"' then double
  else if c = '/' && k.comments then slash
  else plain

/-- The state after a character of a string with the given quote, which is covered by `inside`. -/
def afterCovered (k : Dialect) (quote : Char) (inside behind : Cover) (c : Char) : Cover :=
  if c = '\\' then behind
  else if c = quote || (k.lineStrings && isNewline c) then plain
  else inside

def next (k : Dialect) : Cover → Char → Cover
  | plain, c => afterExposed k c
  | slash, c => if c = '*' then comment else afterExposed k c
  | escape, _ => plain
  | single, c => afterCovered k '\'' single singleEscape c
  | singleEscape, _ => single
  | double, c => afterCovered k '"' double doubleEscape c
  | doubleEscape, _ => double
  | comment, c => if c = '*' then star else comment
  | star, c => if c = '/' then plain else if c = '*' then star else comment

end Cover

/-- What covers the next character, and the brackets around it. -/
structure Nesting where
  cover : Cover := .plain
  depth : Nat := 0
deriving DecidableEq, Repr

namespace Nesting

/-- The next character is exposed and outside all brackets. -/
def isTop (n : Nesting) : Bool := n.cover.exposes && n.depth = 0

def next (k : Dialect) (n : Nesting) (c : Char) : Nesting where
  cover := n.cover.next k c
  depth :=
    if n.cover.exposes then
      if c = '(' || c = '[' then n.depth + 1
      else if c = ')' || c = ']' then n.depth - 1
      else n.depth
    else n.depth

end Nesting

/-- Stops at a given character once it is at the top. -/
def topScan (k : Dialect) (target : Char) : Scan Nesting where
  stops n c := n.isTop && c = target
  next := Nesting.next k

/-- Cuts a text before its first top-level `target`. -/
def cutAtTop (k : Dialect) (target : Char) (t : Text) : Text × Text :=
  (topScan k target).cut {} t

/-- Comments are not recognised and strings end with their line. -/
def bracketDialect : Dialect := ⟨false, true⟩

/-- Stops at the bracket that closes one already open; the depth counts those opened since. -/
def closingScan (opening closing : Char) : Scan Nesting where
  stops n c := n.isTop && c = closing
  next n c :=
    { cover := n.cover.next bracketDialect c
      depth :=
        if n.cover.exposes then
          if c = opening then n.depth + 1
          else if c = closing then n.depth - 1
          else n.depth
        else n.depth }

/-- The place at which `closingScan` stops, counted from `n` on. Nested brackets are searched again
and again, so nothing is put together on the way. -/
def closingAt? (opening closing : Char) (cover : Cover) (depth n : Nat) : Text → Option Nat
  | [] => none
  | c :: r =>
    if cover.exposes then
      if depth = 0 && c = closing then some n
      else
        closingAt? opening closing (cover.next bracketDialect c)
          (if c = opening then depth + 1 else if c = closing then depth - 1 else depth) (n + 1) r
    else closingAt? opening closing (cover.next bracketDialect c) depth (n + 1) r

/-- Cuts a text at the bracket closing one that stands just before it: what the brackets enclose
and what follows them. Strings, which end with their line, and escapes cover brackets. -/
def splitClosing? (opening closing : Char) (t : Text) : Option (Text × Text) :=
  (closingAt? opening closing .plain 0 0 t).map fun n => (t.take n, t.drop (n + 1))

/-- What is left starts with the character sought. -/
theorem cutAtTop_snd_head {k : Dialect} {target c : Char} {t r : Text}
    (h : (cutAtTop k target t).2 = c :: r) : c = target := by
  have := Scan.cut_stops _ _ _ h
  simp only [topScan, Bool.and_eq_true, decide_eq_true_eq] at this
  exact this.2

theorem closingAt?_eq_cut (opening closing : Char) (cover : Cover) (depth n : Nat) (t : Text) :
    closingAt? opening closing cover depth n t =
      match (closingScan opening closing).cut ⟨cover, depth⟩ t with
      | (_, []) => none
      | (inside, _ :: _) => some (n + inside.length) := by
  induction t generalizing cover depth n with
  | nil => rfl
  | cons c r ih =>
    have hshift (s : Nesting) :
        (match (closingScan opening closing).cut s r with
          | (_, []) => none
          | (inside, _ :: _) => some (n + 1 + inside.length)) =
        (match (c :: ((closingScan opening closing).cut s r).1,
            ((closingScan opening closing).cut s r).2) with
          | (_, []) => none
          | (inside, _ :: _) => some (n + inside.length)) := by
      rcases (closingScan opening closing).cut s r with ⟨a, _ | ⟨d, u⟩⟩
      · rfl
      · simp only [List.length_cons, Option.some.injEq]
        omega
    rw [closingAt?, Scan.cut]
    by_cases hx : cover.exposes = true
    · by_cases hd : (depth = 0 && c = closing) = true
      · have hs : (closingScan opening closing).stops ⟨cover, depth⟩ c = true := by
          simpa [closingScan, Nesting.isTop, hx] using hd
        simp [hx, hd, hs]
      · have hs : ¬(closingScan opening closing).stops ⟨cover, depth⟩ c = true := by
          simpa [closingScan, Nesting.isTop, hx] using hd
        rw [if_pos hx, if_neg hd, if_neg hs, ih]
        simp only [closingScan, hx, if_true]
        exact hshift _
    · have hs : ¬(closingScan opening closing).stops ⟨cover, depth⟩ c = true := by
        simp [closingScan, Nesting.isTop, hx]
      rw [if_neg hx, if_neg hs, ih]
      simp only [closingScan, hx]
      exact hshift _

theorem splitClosing?_eq_cut (opening closing : Char) (t : Text) :
    splitClosing? opening closing t =
      match (closingScan opening closing).cut {} t with
      | (_, []) => none
      | (inside, _ :: rest) => some (inside, rest) := by
  have happ := (closingScan opening closing).cut_append {} t
  rw [splitClosing?, closingAt?_eq_cut]
  rcases h : (closingScan opening closing).cut {} t with ⟨a, _ | ⟨d, u⟩⟩
  · rfl
  · rw [h] at happ
    simp only [Nat.zero_add, Option.map_some, ← happ]
    simp

theorem splitClosing?_eq {opening closing : Char} {t inside rest : Text}
    (h : splitClosing? opening closing t = some (inside, rest)) :
    inside ++ closing :: rest = t := by
  have happ := (closingScan opening closing).cut_append {} t
  rw [splitClosing?_eq_cut] at h
  split at h
  · exact absurd h (by simp)
  · next a c r e =>
    obtain ⟨rfl, rfl⟩ : a = inside ∧ r = rest := by simpa using h
    have hc := Scan.cut_stops (closingScan opening closing) {} t (c := c) (r := r) (by rw [e])
    simp only [closingScan, Bool.and_eq_true, decide_eq_true_eq] at hc
    rw [e, hc.2] at happ
    exact happ

end StyleScope.Text
