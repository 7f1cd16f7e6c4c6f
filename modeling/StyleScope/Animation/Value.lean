import StyleScope.Text.Comment
import StyleScope.Text.Quote

/-! # Values of animation properties

A declaration value is read as words, quoted strings, functions, commas, space and comments. The
token texts make up the value again, so a value can be changed token by token.
-/
namespace StyleScope.Animation
open Text

inductive ValueToken where
  | word (text : Text)
  /-- A string with its quotes. -/
  | quoted (text : Text)
  /-- A word and the parentheses after it. -/
  | function (text : Text)
  | space (text : Text)
  | comment (text : Text)
  | comma
  /-- A character that starts nothing else. -/
  | other (text : Text)
deriving DecidableEq, Repr

def ValueToken.text : ValueToken → Text
  | word t | quoted t | function t | space t | comment t | other t => t
  | comma => [',']

/-- The longest text before space, a comma, a quote, a parenthesis or a comment, and what follows
it. -/
def splitWord : Text → Text × Text
  | [] => ([], [])
  | c :: r =>
    if isSpace c || c = ',' || isQuote c || c = '(' || startsComment (c :: r) then ([], c :: r)
    else
      let p := splitWord r
      (c :: p.1, p.2)

/-- Stops at the parenthesis that closes one already open; strings are not recognised. -/
def functionScan : Scan Nat where
  stops depth c := c = ')' && depth = 0
  next depth c := if c = '(' then depth + 1 else if c = ')' then depth - 1 else depth

/-- Splits a text that stands just after an opening parenthesis into the rest of the function and
what follows. -/
def splitFunction (t : Text) : Text × Text := functionScan.through 0 t

namespace ValueToken

/-- A word or function; the first character is `c`. -/
def readWord (c : Char) (r : Text) : ValueToken × Text :=
  let p := splitWord (c :: r)
  match p.2 with
  | '(' :: body =>
    let q := splitFunction body
    (function (p.1 ++ '(' :: q.1), q.2)
  | rest => if p.1.isEmpty then (other [c], r) else (word p.1, rest)

/-- The first token of the value `c :: r` and what follows it. -/
def read (c : Char) (r : Text) : ValueToken × Text :=
  match comment? (c :: r) with
  | some (body, rest) => (comment body, rest)
  | none =>
    if isSpace c then (space (c :: r.takeWhile isSpace), r.dropWhile isSpace)
    else if c = ',' then (comma, r)
    else if isQuote c then
      let p := splitString false c r
      (quoted (c :: p.1), p.2)
    else readWord c r

end ValueToken

@[simp] theorem splitWord_append (t : Text) : (splitWord t).1 ++ (splitWord t).2 = t := by
  fun_induction splitWord t with
  | case1 => rfl
  | case2 c r h => rfl
  | case3 c r h p ih => simp [p, ih]

@[simp] theorem splitFunction_append (t : Text) :
    (splitFunction t).1 ++ (splitFunction t).2 = t :=
  functionScan.through_append 0 t

namespace ValueToken

/-- A token and the text left after it make up a value, of which it took at least a character. -/
def Takes (p : ValueToken × Text) (t : Text) : Prop := p.1.text ++ p.2 = t ∧ p.1.text ≠ []

theorem takes_readWord (c : Char) (r : Text) : Takes (readWord c r) (c :: r) := by
  have h := splitWord_append (c :: r)
  unfold readWord
  dsimp only
  split
  · next body e =>
    rw [e] at h
    simpa [Takes, text] using h
  · split
    · exact ⟨rfl, by simp [text]⟩
    · next hne => exact ⟨h, by simpa [text] using hne⟩

theorem takes_read (c : Char) (r : Text) : Takes (read c r) (c :: r) := by
  unfold read
  split
  · next body rest h =>
    refine ⟨comment?_append h, ?_⟩
    unfold comment? at h
    split at h
    · obtain ⟨rfl, -⟩ : _ ∧ _ := by simpa using h
      simp [text]
    · exact absurd h (by simp)
  · split
    · exact ⟨congrArg (c :: ·) List.takeWhile_append_dropWhile, by simp [text]⟩
    · split
      · next h => exact ⟨by rw [h]; rfl, by simp [text]⟩
      · split
        · simp [Takes, text]
        · exact takes_readWord c r

theorem length_read_rest {c : Char} {r rest : Text} {x : ValueToken} (h : read c r = (x, rest)) :
    rest.length < (c :: r).length := by
  have ht : Takes (x, rest) (c :: r) := h ▸ takes_read c r
  have hl : (x.text ++ rest).length = (c :: r).length := congrArg List.length ht.1
  have hx : 0 < x.text.length := List.length_pos_iff.2 ht.2
  rw [List.length_append] at hl
  omega

end ValueToken

def valueTokens : Text → List ValueToken
  | [] => []
  | c :: r =>
    match _h : ValueToken.read c r with
    | (x, rest) => x :: valueTokens rest
termination_by t => t.length
decreasing_by exact ValueToken.length_read_rest _h

end StyleScope.Animation
