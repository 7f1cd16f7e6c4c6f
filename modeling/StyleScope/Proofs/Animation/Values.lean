import Mathlib.Data.List.Basic
import StyleScope.Animation.Rename

/-! # Values and their tokens

The tokens of a value make up the value again. A token is renamed only if it names keyframes of the
table, so a value without such a token stays as it is, and with no keyframes to rename every value
does.
-/
namespace StyleScope.Animation
open Text Stylesheet

@[simp] theorem text_valueTokens (v : Text) : (valueTokens v).flatMap ValueToken.text = v := by
  fun_induction valueTokens v with
  | case1 => rfl
  | case2 c r x rest h ih =>
      have happ : x.text ++ rest = c :: r := (h ▸ ValueToken.takes_read c r).1
      rw [List.flatMap_cons, ih, happ]

/-- Tokens that name no keyframes of the table stay, in a list of names. -/
theorem renameNames_eq_self {table : Table} {v : Text}
    (h : ∀ x ∈ valueTokens v, scopedToken? table x = none) : renameNames table v = v := by
  have htokens : (valueTokens v).flatMap (renameToken table) =
      (valueTokens v).flatMap ValueToken.text := by
    refine List.flatMap_congr fun x hx => ?_
    rw [renameToken, h x hx]
    rfl
  rw [renameNames, htokens, text_valueTokens]

theorem renameEntries_eq_text {table : Table} (done : Bool) {xs : List ValueToken}
    (h : ∀ x ∈ xs, scopedToken? table x = none) :
    renameEntries table done xs = xs.flatMap ValueToken.text := by
  fun_induction renameEntries table done xs with
  | case1 => rfl
  | case2 done rest ih => simp [ih (List.forall_mem_cons.1 h).2, ValueToken.text]
  | case3 done x rest _ _ ih => simp [ih (List.forall_mem_cons.1 h).2]
  | case4 done x rest _ _ renamed hsome =>
      exact absurd hsome (by simp [(List.forall_mem_cons.1 h).1])
  | case5 done x rest _ _ _ ih => simp [ih (List.forall_mem_cons.1 h).2]

/-- Tokens that name no keyframes of the table stay, in the shorthand. -/
theorem renameShorthand_eq_self {table : Table} {v : Text}
    (h : ∀ x ∈ valueTokens v, scopedToken? table x = none) : renameShorthand table v = v := by
  rw [renameShorthand, renameEntries_eq_text false h, text_valueTokens]

theorem scopedToken?_empty (x : ValueToken) : scopedToken? {} x = none := by
  cases x with
  | quoted t =>
      cases hq : unquote? t with
      | none => simp [scopedToken?, hq]
      | some p => simp [scopedToken?, hq, Table.get?]
  | _ => rfl

theorem renameDeclaration_empty (d : Declaration) : renameDeclaration {} d = d := by
  have hnone : ∀ x ∈ valueTokens d.value, scopedToken? {} x = none :=
    fun x _ => scopedToken?_empty x
  unfold renameDeclaration
  rw [renameNames_eq_self hnone, renameShorthand_eq_self hnone]
  split
  · rfl
  · split
    · rfl
    · rfl

end StyleScope.Animation
