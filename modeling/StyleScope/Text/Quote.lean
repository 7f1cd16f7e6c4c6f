import StyleScope.Basic
import StyleScope.Text.Scan

/-! # Quoted strings

A string runs from a quote to the same quote; a backslash takes the next character with it. In a
selector a string also ends in front of a newline, in a declaration value it does not.
-/
namespace StyleScope.Text

/-- Stops at the closing quote, or at a newline if `line`; the state is true after a backslash. -/
def stringScan (line : Bool) (quote : Char) : Scan Bool where
  stops escaped c := !escaped && (c = quote || (line && isNewline c))
  next escaped c := !escaped && c = '\\'

/-- Splits a text that stands just after an opening quote into the rest of the string, with its
closing quote if it has one, and what follows. -/
def splitString (line : Bool) (quote : Char) (t : Text) : Text × Text :=
  match (stringScan line quote).cut false t with
  | (a, []) => (a, [])
  | (a, c :: r) => if c = quote then (a ++ [c], r) else (a, c :: r)

@[simp] theorem splitString_append (line : Bool) (quote : Char) (t : Text) :
    (splitString line quote t).1 ++ (splitString line quote t).2 = t := by
  have h := (stringScan line quote).cut_append false t
  unfold splitString
  split
  · next a e => simpa [e] using h
  · next a c r e =>
    rw [e] at h
    split <;> simpa using h

/-- A quoted text taken apart into its quote and its content. -/
def unquote? : Text → Option (Char × Text)
  | q :: r => if isQuote q && r.getLast? = some q then some (q, r.dropLast) else none
  | [] => none

def quote (q : Char) (t : Text) : Text := q :: t ++ [q]

theorem quote_of_unquote? {t content : Text} {q : Char} (h : unquote? t = some (q, content)) :
    quote q content = t := by
  cases t with
  | nil => simp [unquote?] at h
  | cons c r =>
    simp only [unquote?] at h
    split at h
    · next hc =>
      obtain ⟨rfl, rfl⟩ : c = q ∧ r.dropLast = content := by simpa using h
      simp only [Bool.and_eq_true, decide_eq_true_eq] at hc
      obtain ⟨ys, rfl⟩ := List.getLast?_eq_some_iff.1 hc.2
      simp [quote]
    · exact absurd h (by simp)

end StyleScope.Text
