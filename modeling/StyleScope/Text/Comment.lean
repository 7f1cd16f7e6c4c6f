import StyleScope.Text.Scan

/-! # Comments

A comment opens with `/*` and ends with the next `*/`, or with the text when there is none.
-/
namespace StyleScope.Text

/-- Stops at the slash of the first `*/`; the state is true just after a star. -/
def commentScan : Scan Bool where
  stops star c := star && c = '/'
  next _ c := c = '*'

/-- Splits a text that stands just after `/*` into the rest of the comment and what follows. -/
def splitComment (t : Text) : Text × Text := commentScan.through false t

def startsComment : Text → Bool
  | '/' :: '*' :: _ => true
  | _ => false

/-- The comment a text starts with and what follows it, if it starts with one. -/
def comment? : Text → Option (Text × Text)
  | '/' :: '*' :: r =>
    let p := splitComment r
    some ('/' :: '*' :: p.1, p.2)
  | _ => none

@[simp] theorem splitComment_append (t : Text) :
    (splitComment t).1 ++ (splitComment t).2 = t :=
  commentScan.through_append false t

theorem comment?_append {t body rest : Text} (h : comment? t = some (body, rest)) :
    body ++ rest = t := by
  unfold comment? at h
  split at h
  · next r =>
    obtain ⟨rfl, rfl⟩ : _ ∧ _ := by simpa using h
    simp
  · exact absurd h (by simp)

end StyleScope.Text
