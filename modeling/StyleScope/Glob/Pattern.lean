import StyleScope.Decimal.Shortest
import StyleScope.Files.Path

/-! # Glob patterns

A pattern is written in characters, `?` for any one, `*` for any sequence, and classes such as
`[a-z]` or `[!x]`. Two stars are a component of their own and stand for any number of directories.
-/
namespace StyleScope.Glob

/-- A member of a class: the characters from one to another. -/
structure Range where
  first : Char
  last : Char
deriving DecidableEq, Repr

inductive Token where
  | char (c : Char)
  | anyChar
  | anySequence
  /-- Two stars. -/
  | recursive
  /-- A character in one of the ranges, or in none of them. -/
  | within (ranges : List Range)
  | except (ranges : List Range)
deriving DecidableEq, Repr

inductive Fault where
  /-- More than two stars. -/
  | stars
  /-- Two stars beside something else. -/
  | recursion
  /-- A class that is empty or does not end. -/
  | range
deriving DecidableEq, Repr

/-- A fault and the place of the character it was found at. -/
structure PatternError where
  position : Nat
  fault : Fault
deriving DecidableEq, Repr

def Fault.message : Fault → Text
  | stars => "wildcards are either regular `*` or recursive `**`".toList
  | recursion => "recursive wildcards must form a single path component".toList
  | range => "invalid range pattern".toList

def PatternError.message (e : PatternError) : Text :=
  "Pattern syntax error near position ".toList ++ Decimal.natText e.position ++ ": ".toList ++
    e.fault.message

def ranges : Text → List Range
  | a :: '-' :: b :: r => ⟨a, b⟩ :: ranges r
  | a :: r => ⟨a, a⟩ :: ranges r
  | [] => []

/-- A class, the text standing after its opening bracket: its token, its length and what follows.
The first member may be a closing bracket. -/
def class? (t : Text) : Option (Token × Nat × Text) :=
  let (negated, body) : Bool × Text := match t with
    | '!' :: r => (true, r)
    | _ => (false, t)
  match body with
  | [] => none
  | c :: more =>
    let inner := more.takeWhile (· ≠ ']')
    match more.dropWhile (· ≠ ']') with
    | [] => none
    | _ :: rest =>
      let members := ranges (c :: inner)
      some (if negated then .except members else .within members,
        t.length - rest.length, rest)

theorem length_class?_rest {t rest : Text} {token : Token} {n : Nat}
    (h : class? t = some (token, n, rest)) : rest.length < t.length := by
  have hdrop (more : Text) : (more.dropWhile (· ≠ ']')).length ≤ more.length :=
    (List.dropWhile_sublist _).length_le
  unfold class? at h
  dsimp only at h
  split at h
  · exact absurd h (by simp)
  · next c more hbody =>
    have hlen : more.length < t.length := by
      split at hbody
      · simp only at hbody
        rw [hbody, List.length_cons, List.length_cons]
        omega
      · simp only at hbody
        rw [hbody, List.length_cons]
        omega
    have hd := hdrop more
    split at h
    · exact absurd h (by simp)
    · next d r hr =>
      rw [hr, List.length_cons] at hd
      obtain ⟨-, -, rfl⟩ : _ ∧ _ ∧ r = rest := by simpa using h
      omega

/-- The tokens of a pattern; the text stands at place `i`, after the character `before`. -/
def tokensFrom (i : Nat) (before : Option Char) (t : Text) : Except PatternError (List Token) :=
  match t with
  | [] => .ok []
  | c :: r =>
    if c = '?' then (tokensFrom (i + 1) (some c) r).map (.anyChar :: ·)
    else if c = '*' then
      match r with
      | '*' :: '*' :: _ => .error ⟨i + 2, .stars⟩
      | '*' :: rest =>
        if i = 0 || before = some '/' then
          match rest with
          | [] => .ok [.recursive]
          | d :: rest =>
            if d = '/' then (tokensFrom (i + 3) (some d) rest).map (.recursive :: ·)
            else .error ⟨i + 2, .recursion⟩
        else .error ⟨i - 1, .recursion⟩
      | rest => (tokensFrom (i + 1) (some c) rest).map (.anySequence :: ·)
    else if c = '[' then
      match _h : class? r with
      | none => .error ⟨i, .range⟩
      | some (token, length, rest) =>
        (tokensFrom (i + 1 + length) (some ']') rest).map (token :: ·)
    else (tokensFrom (i + 1) (some c) r).map (.char c :: ·)
termination_by t.length
decreasing_by
  · exact Nat.lt_succ_self _
  · simp only [List.length_cons]
    omega
  · exact Nat.lt_succ_self _
  · have := length_class?_rest _h
    rw [List.length_cons]
    omega
  · exact Nat.lt_succ_self _

def tokens (pattern : Text) : Except PatternError (List Token) := tokensFrom 0 none pattern

def Token.accepts (c : Char) : Token → Bool
  | char d => c = d
  | anyChar => true
  | within rs => rs.any fun r => r.first ≤ c && c ≤ r.last
  | except rs => !rs.any fun r => r.first ≤ c && c ≤ r.last
  | anySequence => false
  | recursive => false

/-- What comes of comparing tokens with a text. -/
inductive Verdict where
  | accepted
  /-- The text has other characters; an end of it may do better. -/
  | refused
  /-- The text is too short, and so is every end of it. -/
  | exhausted
deriving DecidableEq, Repr

/-- The verdict on the first end of a text that is not refused. -/
def firstVerdict (test : Text → Verdict) : Text → Verdict
  | [] => test []
  | c :: r =>
    match test (c :: r) with
    | .refused => firstVerdict test r
    | v => v

/-- Compares tokens with a text. Once a sequence has found the tokens up to the next one, no other
place of them has to be tried: a text that is too short from there is too short from later on. -/
def compareTokens : List Token → Text → Verdict
  | [], [] => .accepted
  | [], _ :: _ => .refused
  | .anySequence :: ts, t => firstVerdict (compareTokens ts) t
  | .recursive :: ts, t => firstVerdict (compareTokens ts) t
  | _ :: _, [] => .exhausted
  | x :: ts, c :: r => if x.accepts c then compareTokens ts r else .refused

def matchTokens (ts : List Token) (t : Text) : Bool := compareTokens ts t = .accepted

/-- The text of tokens that are all characters. -/
def literal? : List Token → Option Text
  | [] => some []
  | .char c :: ts => (literal? ts).map (c :: ·)
  | _ => none

def isRecursive (ts : List Token) : Bool := ts.contains .recursive

/-- A pattern taken apart into its components. -/
structure Pattern where
  components : List (List Token)
  /-- The pattern ends with a slash and matches directories only. -/
  directoryOnly : Bool
  absolute : Bool
deriving Repr

/-- The components a pattern is written in. A slash at the end starts none; the empty pattern has
one that is empty. -/
def componentTexts (pattern : Text) : List Text :=
  let body := if Files.Path.isAbsolute pattern then pattern.tail else pattern
  let parts := Files.Path.segments body
  if body.isEmpty then [[]]
  else if parts.getLast? = some [] then parts.dropLast
  else parts

/-- Components without repetitions of two stars, which mean the same once. -/
def collapse : List (List Token) → List (List Token)
  | a :: b :: rest =>
    if isRecursive a && isRecursive b then collapse (b :: rest) else a :: collapse (b :: rest)
  | l => l

/-- Reads a pattern. The whole has to be well formed and so does each component. -/
def Pattern.ofText (pattern : Text) : Except PatternError Pattern := do
  let _ ← tokens pattern
  let components ← (componentTexts pattern).mapM tokens
  return { components := collapse components
           directoryOnly := pattern.getLast? = some '/'
           absolute := Files.Path.isAbsolute pattern }

end StyleScope.Glob
