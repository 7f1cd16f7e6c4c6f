import StyleScope.Proofs.Animation.Renaming
import StyleScope.Proofs.Animation.Tokens

/-! # Values that name nothing of the stylesheet

The tokens of a value are known from the value alone. They make it up, each stands in front of those
behind it, and no other list of tokens does both (`valueTokens_eq_iff`). So no token is empty, and
no character is left that starts nothing.

A value is changed token by token. Where no word and no string in quotes is a name of the table, all
names in the value are global and the value stays.
-/
namespace StyleScope.Animation
open Text

/-- Each token stands in front of the text of those behind it. -/
def TokensStand : List ValueToken → Prop
  | [] => True
  | x :: xs => x.Stands (xs.flatMap ValueToken.text) ∧ TokensStand xs

theorem tokensStand_valueTokens (v : Text) : TokensStand (valueTokens v) := by
  fun_induction valueTokens v with
  | case1 => exact trivial
  | case2 c r x rest hread ih =>
      refine ⟨?_, ih⟩
      rw [text_valueTokens]
      exact (ValueToken.read_eq_iff.1 hread).2

theorem valueTokens_of_tokensStand {xs : List ValueToken} (h : TokensStand xs) :
    valueTokens (xs.flatMap ValueToken.text) = xs := by
  induction xs with
  | nil => exact valueTokens_nil
  | cons x xs ih => rw [List.flatMap_cons, valueTokens_of_stands h.1, ih h.2]

/-- The tokens of a value are the only ones that make it up and stand in a row. -/
theorem valueTokens_eq_iff {v : Text} {xs : List ValueToken} :
    valueTokens v = xs ↔ xs.flatMap ValueToken.text = v ∧ TokensStand xs := by
  constructor
  · rintro rfl
    exact ⟨text_valueTokens v, tokensStand_valueTokens v⟩
  · rintro ⟨rfl, hstand⟩
    exact valueTokens_of_tokensStand hstand

theorem ValueToken.Stands.ne_other {x : ValueToken} {t : Text} (h : x.Stands t) (u : Text) :
    x ≠ .other u := by
  rintro rfl
  cases h with
  | runsOut hopen => cases hopen

/-- A token that is neither a name of the table nor one in quotes has no scoped form. -/
theorem scopedToken?_eq_none {table : Table} {x : ValueToken}
    (hword : ∀ w, x = .word w → table.contains w = false)
    (hquoted : ∀ q n, x = .quoted (quote q n) → table.contains n = false) :
    scopedToken? table x = none := by
  cases x with
  | word w => simpa [scopedToken?, Table.contains] using hword w rfl
  | quoted t =>
      cases ht : unquote? t with
      | none => simp [scopedToken?, ht]
      | some p =>
          obtain ⟨-, rfl⟩ := unquote?_eq_some_iff.1 ht
          have hname : table.get? p.2 = none := by
            simpa [Table.contains] using hquoted p.1 p.2 rfl
          simp [scopedToken?, ht, hname]
  | _ => rfl

/-- Reading a value loses nothing and has a token for everything, and a value without a name of the
table is left alone by both ways to rename animations. -/
theorem valueTokens_lossless (v : Text) :
    (valueTokens v).flatMap ValueToken.text = v ∧
      (∀ xs, xs.flatMap ValueToken.text = v → TokensStand xs → xs = valueTokens v) ∧
      (∀ x ∈ valueTokens v, x.text ≠ [] ∧ ∀ t, x ≠ .other t) ∧
      ∀ table : Table, (∀ w, .word w ∈ valueTokens v → table.contains w = false) →
        (∀ q n, .quoted (quote q n) ∈ valueTokens v → table.contains n = false) →
        renameNames table v = v ∧ renameShorthand table v = v := by
  refine ⟨text_valueTokens v, ?_, ?_, ?_⟩
  · intro xs hxs hstand
    exact (valueTokens_eq_iff.2 ⟨hxs, hstand⟩).symm
  · intro x hx
    obtain ⟨t, hstands⟩ := exists_stands_of_mem hx
    exact ⟨hstands.text_ne_nil, hstands.ne_other⟩
  · intro table hwords hquoted
    have hnone : ∀ x ∈ valueTokens v, scopedToken? table x = none := fun x hx =>
      scopedToken?_eq_none (fun w hw => hwords w (hw ▸ hx)) (fun q n hq => hquoted q n (hq ▸ hx))
    exact ⟨renameNames_eq_self hnone, renameShorthand_eq_self hnone⟩

/-- The name of the table stands in a comment, in a function, and in strings that hold more or never
end. -/
theorem valueTokens_lossless_hidden :
    let table := tableOf "s".toList ["spin".toList]
    let v : Text := "spin2/* spin */,f(spin)'spin '\"spin".toList
    (∀ w, .word w ∈ valueTokens v → table.contains w = false) ∧
      (∀ q n, .quoted (quote q n) ∈ valueTokens v → table.contains n = false) ∧
      renameNames table v = v ∧ renameShorthand table v = v := by
  intro table v
  have htokens : valueTokens v = [.word "spin2".toList, .comment "/* spin */".toList, .comma,
      .function "f(spin)".toList, .quoted "'spin '".toList, .quoted "\"spin".toList] := by
    decide +kernel
  have hwords : ∀ w, .word w ∈ valueTokens v → table.contains w = false := by
    intro w hw
    obtain rfl : w = "spin2".toList := by simpa [htokens] using hw
    decide
  have hquoted : ∀ q n, .quoted (quote q n) ∈ valueTokens v → table.contains n = false := by
    intro q n hq
    obtain hshut | hopen : quote q n = "'spin '".toList ∨ quote q n = "\"spin".toList := by
      simpa [htokens] using hq
    · have hname : (quote q n).tail.dropLast = "spin ".toList := by
        rw [hshut]
        rfl
      obtain rfl : n = "spin ".toList := by simpa [quote] using hname
      decide
    · have hends : (quote q n).head? = (quote q n).getLast? := by
        rw [quote, List.getLast?_concat]
        rfl
      rw [hopen] at hends
      exact absurd hends (by decide)
  exact ⟨hwords, hquoted, (valueTokens_lossless v).2.2.2 table hwords hquoted⟩

end StyleScope.Animation
