import StyleScope.Stylesheet.Basic
import StyleScope.Text.Cover

/-! # Where statements end

A statement runs to a brace or to a semicolon at the top, whichever comes first, and otherwise to
the end of the text. Strings, which end with their line, comments and escapes cover all of these.
The value of a custom property may hold blocks in braces, so there a statement runs on over
balanced braces.

The text from the end of the statement on is returned beside it and starts with the character
that ended it.
-/
namespace StyleScope.Stylesheet
open Text

/-- Comments are recognised and strings end with their line. -/
def statementDialect : Dialect := ⟨true, true⟩

/-- Stops at a brace, or at a semicolon at the top. -/
def statementScan : Scan Nesting where
  stops n c := (n.cover.exposes && (c = '{' || c = '}')) || (n.isTop && c = ';')
  next := Nesting.next statementDialect

/-- The open brackets, and the open braces beside them. -/
structure BlockNesting where
  nesting : Nesting := {}
  braces : Nat := 0
deriving DecidableEq, Repr

/-- Stops at a brace that closes none, or at a semicolon outside brackets and braces. -/
def customScan : Scan BlockNesting where
  stops b c :=
    b.braces = 0 && ((b.nesting.cover.exposes && c = '}') || (b.nesting.isTop && c = ';'))
  next b c :=
    { nesting := b.nesting.next statementDialect c
      braces :=
        if b.nesting.cover.exposes then
          if c = '{' then b.braces + 1 else if c = '}' then b.braces - 1 else b.braces
        else b.braces }

/-- The text opens a custom property: `--`, name characters, blanks and a colon. -/
def isCustomProperty : Text → Bool
  | '-' :: '-' :: r => (trimStart (r.dropWhile isNamePart)).head? = some ':'
  | _ => false

def cutStatement (t : Text) : Text × Text := statementScan.cut {} t

/-- Cuts a text where the custom property it opens with ends. -/
def cutCustomProperty (t : Text) : Text × Text := customScan.cut {} t

/-- Cuts a text where its first statement ends, with the rule for custom properties if it opens
one. -/
def cutAny (t : Text) : Text × Text :=
  if isCustomProperty t then cutCustomProperty t else cutStatement t

/-- Strings and escapes cover a colon, comments do not. -/
def colonDialect : Dialect := ⟨false, false⟩

/-- A declaration taken apart at its first colon at the top: the property, the colon with the
blanks around it, and the value. -/
def splitDeclaration? (t : Text) : Option (Text × Text × Text) :=
  match cutAtTop colonDialect ':' t with
  | (_, []) => none
  | (left, _ :: right) =>
    some (trimEnd left, trailingBlanks left ++ ':' :: leadingBlanks right, trimStart right)

@[simp] theorem cutStatement_append (t : Text) :
    (cutStatement t).1 ++ (cutStatement t).2 = t :=
  statementScan.cut_append {} t

@[simp] theorem cutCustomProperty_append (t : Text) :
    (cutCustomProperty t).1 ++ (cutCustomProperty t).2 = t :=
  customScan.cut_append {} t

@[simp] theorem cutAny_append (t : Text) : (cutAny t).1 ++ (cutAny t).2 = t := by
  unfold cutAny
  split
  · exact cutCustomProperty_append t
  · exact cutStatement_append t

theorem splitDeclaration?_append {t prop between value : Text}
    (h : splitDeclaration? t = some (prop, between, value)) : prop ++ between ++ value = t := by
  have happ := (topScan colonDialect ':').cut_append {} t
  unfold splitDeclaration? at h
  split at h
  · exact absurd h (by simp)
  · next left c right e =>
    have hc : c = ':' := cutAtTop_snd_head (k := colonDialect) (t := t) (r := right) (by rw [e])
    obtain ⟨rfl, rfl, rfl⟩ : _ ∧ _ ∧ _ := by simpa using h
    rw [show (topScan colonDialect ':').cut {} t = _ from e] at happ
    simp only [List.append_assoc, List.cons_append, leadingBlanks_append_trimStart]
    rw [← List.append_assoc, trimEnd_append_trailingBlanks, ← happ, hc]

end StyleScope.Stylesheet
