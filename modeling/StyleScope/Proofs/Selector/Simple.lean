import StyleScope.Proofs.Selector.Grammar

/-! # Simple fragments

A name, a combinator or whitespace is made up of characters that no scan over a stylesheet minds,
and of escapes. What holds of these, and of two texts in a row if it holds of both, holds of every
such fragment that was read (`HoldsSimply.of_mem_tokenize`).
-/
namespace StyleScope.Selector
open Text

def Fragment.isSimple : Fragment → Bool
  | .identifier _ | .universal | .id _ | .className _ | .pseudo _ _ | .combinator _
  | .whitespace _ => true
  | _ => false

/-- The characters of names, combinators and whitespace, and the signs in front of names. -/
def isSimpleChar (c : Char) : Bool :=
  isNamePart c || isCombinator c || isSpace c || c = '.' || c = '#' || c = ':' || c = '*'

/-- The property holds of simple characters and of escapes, and of one text behind another. -/
structure HoldsSimply (P : Text → Prop) : Prop where
  nil : P []
  append {u v : Text} : P u → P v → P (u ++ v)
  char {c : Char} : isSimpleChar c = true → P [c]
  escape (d : Char) : P ['\\', d]

namespace HoldsSimply
variable {P : Text → Prop} (hP : HoldsSimply P)
include hP

theorem of_all {t : Text} (h : t.all isSimpleChar = true) : P t := by
  induction t with
  | nil => exact hP.nil
  | cons c r ih =>
      rw [List.all_cons, Bool.and_eq_true] at h
      exact hP.append (hP.char h.1) (ih h.2)

theorem of_nameText {n : Text} (h : NameText n) : P n := by
  induction h with
  | nil => exact hP.nil
  | char hc _ ih => exact hP.append (hP.char (by simp [isSimpleChar, hc])) ih
  | @escape r d _ ih => exact hP.append (hP.escape d) ih

theorem of_stands {x : Lexeme} {t : Text} (h : x.Stands t) (hx : x.fragment.isSimple = true) :
    P x.text := by
  have hspace {s : Text} (hs : s.all isSpace = true) : P s := by
    apply hP.of_all
    rw [List.all_eq_true] at hs ⊢
    intro c hc
    simp [isSimpleChar, hs c hc]
  have hone (c : Char) (hc : isSimpleChar c = true) : P [c] := hP.char hc
  cases h with
  | identifier hn _ => simpa using hP.of_nameText hn.nameText
  | className hn _ => simpa using hP.append (hone '.' (by decide)) (hP.of_nameText hn.nameText)
  | id hn _ => simpa using hP.append (hone '#' (by decide)) (hP.of_nameText hn.nameText)
  | @pseudo colons n _ hn _ _ =>
      have hcolons : P (List.replicate (colons + 1) ':') := by
        apply hP.of_all
        rw [List.all_replicate]
        rfl
      simpa using hP.append hcolons (hP.of_nameText hn.nameText)
  | @combinator lead trail _ d hlead hd htrail _ =>
      have hsign : P [d] := hone d (by simp [isSimpleChar, hd])
      simpa using hP.append (hP.append (hspace hlead) hsign) (hspace htrail)
  | universal => exact hone '*' (by decide)
  | whitespace hs _ => simpa using hspace hs
  | _ => exact absurd hx (by simp [Lexeme.fragment, Fragment.isSimple])

theorem of_mem_tokenize {t : Text} {f : Fragment} (h : f ∈ tokenize t)
    (hf : f.isSimple = true) : P f.text := by
  obtain ⟨c, r, rfl⟩ := exists_read_of_mem_tokenize h
  rw [Lexeme.text_fragment]
  exact hP.of_stands (Lexeme.stands_read c r) hf

theorem of_render {fs : List Fragment} (h : ∀ f ∈ fs, P f.text) : P (render fs) := by
  induction fs with
  | nil => exact hP.nil
  | cons f fs ih =>
      rw [render_cons]
      exact hP.append (h f (by simp)) (ih fun g hg => h g (by simp [hg]))

end HoldsSimply

end StyleScope.Selector
