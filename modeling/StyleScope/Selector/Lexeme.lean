import StyleScope.Selector.Fragment
import StyleScope.Selector.Name
import StyleScope.Text.Comment
import StyleScope.Text.Cover
import StyleScope.Text.Quote

/-! # One step of selector reading

`Lexeme.read` takes the first lexical unit off a selector. The first character decides what is
tried; when the attempt fails (a period without a name, a bracket that is never closed) the
character alone is taken as a raw fragment. The arguments of a pseudo selector are returned as
text, to be read in turn.

Nothing is lost (`read_append`), so what is left to read and the text of any arguments are both
shorter than what there was (`length_read_rest`, `length_read_arguments`).
-/
namespace StyleScope.Selector
open Text

/-- A unit taken off the front of a selector. -/
inductive Lexeme where
  /-- A fragment that holds no other fragments. -/
  | leaf (fragment : Fragment)
  /-- A pseudo selector whose arguments are still to be read. -/
  | call (colons : Nat) (name arguments : Text) (closed : Bool)
deriving Repr

namespace Lexeme

def text : Lexeme → Text
  | leaf f => f.text
  | call colons name arguments closed =>
    List.replicate colons ':' ++ name ++ '(' :: arguments ++ if closed then [')'] else []

def readRaw (c : Char) (r : Text) : Lexeme × Text := (leaf (.raw [c]), r)

/-- A name behind the sign `c`, made into a fragment by `make`. -/
def readSigned (make : Text → Fragment) (c : Char) (r : Text) : Lexeme × Text :=
  match name? r with
  | some (name, rest) => (leaf (make name), rest)
  | none => readRaw c r

/-- An attribute test, `r` standing after its opening bracket. -/
def readAttribute (r : Text) : Lexeme × Text :=
  match splitClosing? '[' ']' r with
  | some (inside, rest) => (leaf (.attr ('[' :: inside ++ [']'])), rest)
  | none => readRaw '[' r

/-- What follows the name of a pseudo selector. -/
def readArguments (colons : Nat) (name rest : Text) : Lexeme × Text :=
  match rest with
  | '(' :: body =>
    match splitClosing? '(' ')' body with
    | some (inside, rest) => (call colons name inside true, rest)
    | none => (call colons name body false, [])
  | _ => (leaf (.pseudo colons name), rest)

/-- A pseudo selector, `r` standing after its first colon. -/
def readPseudo (r : Text) : Lexeme × Text :=
  match name? (r.dropWhile (· = ':')) with
  | some (name, rest) => readArguments ((r.takeWhile (· = ':')).length + 1) name rest
  | none => readRaw ':' r

/-- Space, or a combinator with the space around it. -/
def readGap (t : Text) : Lexeme × Text :=
  let lead := t.takeWhile isSpace
  match t.dropWhile isSpace with
  | d :: r =>
    if isCombinator d then
      (leaf (.combinator (lead ++ d :: r.takeWhile isSpace)), r.dropWhile isSpace)
    else (leaf (.whitespace lead), d :: r)
  | [] => (leaf (.whitespace lead), [])

def readComment (r : Text) : Lexeme × Text :=
  match comment? ('/' :: r) with
  | some (body, rest) => (leaf (.comment body), rest)
  | none => readRaw '/' r

def readString (quote : Char) (r : Text) : Lexeme × Text :=
  let p := splitString true quote r
  (leaf (.string (quote :: p.1)), p.2)

/-- The lexeme that starts at a character no name starts at. -/
def readSign (c : Char) (r : Text) : Lexeme × Text :=
  if c = '.' then readSigned .className c r
  else if c = '#' then readSigned .id c r
  else if c = '[' then readAttribute r
  else if c = ':' then readPseudo r
  else if isSpace c || isCombinator c then readGap (c :: r)
  else if c = '*' then (leaf .universal, r)
  else if isQuote c then readString c r
  else if c = '/' then readComment r
  else readRaw c r

/-- The first lexeme of the text `c :: r` and what follows it. -/
def read (c : Char) (r : Text) : Lexeme × Text :=
  match name? (c :: r) with
  | some (name, rest) => (leaf (.identifier name), rest)
  | none => readSign c r

/-- A lexeme and the text left after it make up a text, of which it took at least a character. -/
def Takes (p : Lexeme × Text) (t : Text) : Prop := p.1.text ++ p.2 = t ∧ p.1.text ≠ []

theorem takes_readRaw (c : Char) (r : Text) : Takes (readRaw c r) (c :: r) := by
  simp [Takes, readRaw, text]

theorem takes_readSigned {make : Text → Fragment} {c : Char} (r : Text)
    (hm : ∀ n, (make n).text = c :: n) : Takes (readSigned make c r) (c :: r) := by
  unfold readSigned
  split
  · next name rest h => simp [Takes, text, hm, (name?_append h).1]
  · exact takes_readRaw c r

theorem takes_readAttribute (r : Text) : Takes (readAttribute r) ('[' :: r) := by
  unfold readAttribute
  split
  · next inside rest h => simp [Takes, text, splitClosing?_eq h]
  · exact takes_readRaw '[' r

theorem takes_readArguments (colons : Nat) (name rest : Text) (h : name ≠ []) :
    Takes (readArguments colons name rest) (List.replicate colons ':' ++ name ++ rest) := by
  unfold readArguments
  split
  · next body =>
    split
    · next inside rest' hs => simp [Takes, text, splitClosing?_eq hs]
    · simp [Takes, text]
  · simp [Takes, text, h]

theorem takes_readPseudo (r : Text) : Takes (readPseudo r) (':' :: r) := by
  unfold readPseudo
  split
  · next name rest h =>
    obtain ⟨happ, hne⟩ := name?_append h
    have hall : ∀ c ∈ r.takeWhile (· = ':'), c = ':' := fun c hc => by
      simpa using List.all_eq_true.1 (List.all_takeWhile (p := (· = ':')) (l := r)) c hc
    have hr : List.replicate ((r.takeWhile (· = ':')).length + 1) ':' ++ name ++ rest =
        ':' :: r := by
      rw [List.append_assoc, happ, List.replicate_succ, ← List.eq_replicate_of_mem hall,
        List.cons_append, List.takeWhile_append_dropWhile]
    exact hr ▸ takes_readArguments _ name rest hne
  · exact takes_readRaw ':' r

theorem takes_readGap (c : Char) (r : Text) (hc : isSpace c = true ∨ isCombinator c = true) :
    Takes (readGap (c :: r)) (c :: r) := by
  have h := List.takeWhile_append_dropWhile (p := isSpace) (l := c :: r)
  unfold readGap
  split
  · next d u e =>
    rw [e] at h
    split
    · exact ⟨by simpa [text] using h, by simp [text]⟩
    · next hd =>
      refine ⟨by simpa [text] using h, ?_⟩
      have hs : isSpace c = true := by
        rcases hc with hc | hc
        · exact hc
        · by_cases hs : isSpace c = true
          · exact hs
          · rw [List.dropWhile_cons_of_neg hs] at e
            exact absurd ((List.cons.inj e).1 ▸ hc) hd
      simp [text, hs]
  · next e =>
    rw [e, List.append_nil] at h
    exact ⟨by simpa [text] using h, by simp [text, h]⟩

theorem takes_readComment (r : Text) : Takes (readComment r) ('/' :: r) := by
  unfold readComment
  split
  · next body rest h =>
    refine ⟨by simpa [text] using comment?_append h, ?_⟩
    unfold comment? at h
    split at h
    · obtain ⟨rfl, -⟩ : _ ∧ _ := by simpa using h
      simp [text]
    · exact absurd h (by simp)
  · exact takes_readRaw '/' r

theorem takes_readString (quote : Char) (r : Text) : Takes (readString quote r) (quote :: r) := by
  simp [Takes, readString, text]

theorem takes_readSign (c : Char) (r : Text) : Takes (readSign c r) (c :: r) := by
  unfold readSign
  split
  · next h => exact takes_readSigned r (by simp [h])
  · split
    · next h => exact takes_readSigned r (by simp [h])
    · split
      · next h => exact h ▸ takes_readAttribute r
      · split
        · next h => exact h ▸ takes_readPseudo r
        · split
          · next h => exact takes_readGap c r (by simpa using h)
          · split
            · next h => simp [Takes, text, h]
            · split
              · exact takes_readString c r
              · split
                · next h => exact h ▸ takes_readComment r
                · exact takes_readRaw c r

theorem takes_read (c : Char) (r : Text) : Takes (read c r) (c :: r) := by
  unfold read
  split
  · next name rest h => simpa [Takes, text] using name?_append h
  · exact takes_readSign c r

/-- Nothing is lost: the lexeme read and what is left make up the text. -/
theorem read_append (c : Char) (r : Text) : (read c r).1.text ++ (read c r).2 = c :: r :=
  (takes_read c r).1

theorem length_read_rest {c : Char} {r rest : Text} {x : Lexeme} (h : read c r = (x, rest)) :
    rest.length < (c :: r).length := by
  have ht : Takes (x, rest) (c :: r) := h ▸ takes_read c r
  have hl : (x.text ++ rest).length = (c :: r).length := congrArg List.length ht.1
  have hx : 0 < x.text.length := List.length_pos_iff.2 ht.2
  rw [List.length_append] at hl
  omega

theorem length_read_arguments {c : Char} {r rest name arguments : Text} {colons : Nat}
    {closed : Bool} (h : read c r = (call colons name arguments closed, rest)) :
    arguments.length < (c :: r).length := by
  have hl := congrArg List.length (read_append c r)
  rw [h] at hl
  simp only [text, List.length_append, List.length_cons] at hl ⊢
  omega

end Lexeme

def tokenize : Text → List Fragment
  | [] => []
  | c :: r =>
    match _h : Lexeme.read c r with
    | (.leaf f, rest) => f :: tokenize rest
    | (.call colons name arguments closed, rest) =>
      .function colons name (tokenize arguments) closed :: tokenize rest
termination_by t => t.length
decreasing_by
  · exact Lexeme.length_read_rest _h
  · exact Lexeme.length_read_arguments _h
  · exact Lexeme.length_read_rest _h

end StyleScope.Selector
