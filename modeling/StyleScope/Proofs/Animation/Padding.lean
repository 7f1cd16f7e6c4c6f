import StyleScope.Proofs.Animation.Renaming
import StyleScope.Proofs.Animation.Tokens
import StyleScope.Proofs.Animation.Values
import StyleScope.Proofs.Stylesheet.Insertion

/-! # Where renaming puts the scope

A renamed name is the name with a word behind it, and so renaming a value or the parameters of
keyframes is putting that word into them, behind names and in front of closing quotes. If no name
ends in a backslash or a star, these are places where the word does no harm (`lengthened_value`,
`lengthened_params`).
-/
namespace StyleScope.Animation
open Text Stylesheet

/-- What stands behind a name within a scope. -/
def nameSuffix (scope : Text) : Text := scopedName [] scope

theorem scopedName_eq_append (name scope : Text) :
    scopedName name scope = name ++ nameSuffix scope := by
  unfold nameSuffix scopedName
  split
  · rfl
  · rfl
  · rfl

theorem nameSuffix_ne_nil {scope : Text} (h : scope ≠ []) : nameSuffix scope ≠ [] := by
  unfold nameSuffix scopedName
  split
  · exact h
  · exact h
  · simp

theorem all_nameSuffix {scope : Text} (h : scope.all isScopeChar = true) :
    (nameSuffix scope).all isScopeChar = true := by
  unfold nameSuffix scopedName
  split
  · exact h
  · exact h
  · rw [List.nil_append, List.all_cons, h]
    rfl

/-- A word is not followed by a star. -/
theorem ValueToken.head?_of_word {c : Char} {r w rest : Text} (h : read c r = (.word w, rest)) :
    w ≠ [] ∧ ∀ d ∈ rest.head?, d ≠ '*' := by
  cases (read_eq_iff.1 h).2 with
  | word hne _ hends _ => exact ⟨hne, fun d hd hstar => hends.head?_ne (hstar ▸ hd)⟩
  | runsOut hopen => exact nomatch hopen

theorem blunt_quote {q : Char} {n : Text} (hq : isQuote q = true) (hn : Blunt n.getLast?) :
    Blunt (q :: n).getLast? := by
  cases n with
  | nil =>
      rintro c hc
      obtain rfl : q = c := Option.some.inj hc
      constructor
      · rintro rfl
        exact absurd hq (by decide)
      · rintro rfl
        exact absurd hq (by decide)
  | cons c n => rwa [List.getLast?_cons_cons]

/-- A name in quotes is lengthened in front of the closing quote. -/
theorem lengthened_quoted {scope : Text} {q : Char} {n v v' : Text} (hq : isQuote q = true)
    (hn : Blunt n.getLast?) (h : Lengthened (nameSuffix scope) v v') :
    Lengthened (nameSuffix scope) (quote q n ++ v) (quote q (scopedName n scope) ++ v') := by
  have hquote : ∀ c ∈ ([q] ++ v).head?, c ≠ '*' := by
    intro c hc
    obtain rfl : q = c := Option.some.inj hc
    rintro rfl
    exact absurd hq (by decide)
  have hword := (h.append_left [q]).word (List.cons_ne_nil q n) (blunt_quote hq hn) hquote
  rw [scopedName_eq_append]
  simpa [quote] using hword

/-- Of the tokens of the shorthand some are renamed. -/
theorem forall₂_renameEntries (table : Table) (done : Bool) (xs : List ValueToken) :
    ∃ ys, renameEntries table done xs = ys.flatten ∧
      List.Forall₂ (fun x y => y = x.text ∨ y = renameToken table x) xs ys := by
  fun_induction renameEntries table done xs with
  | case1 => exact ⟨[], rfl, .nil⟩
  | case2 done rest ih =>
      obtain ⟨ys, hys, hall⟩ := ih
      exact ⟨[','] :: ys, by rw [hys]; rfl, .cons (.inl rfl) hall⟩
  | case3 done x rest _ _ ih =>
      obtain ⟨ys, hys, hall⟩ := ih
      exact ⟨x.text :: ys, by rw [hys]; rfl, .cons (.inl rfl) hall⟩
  | case4 done x rest _ _ renamed h ih =>
      obtain ⟨ys, hys, hall⟩ := ih
      refine ⟨renamed :: ys, by rw [hys]; rfl, .cons (.inr ?_) hall⟩
      rw [renameToken, h, Option.getD_some]
  | case5 done x rest _ _ _ ih =>
      obtain ⟨ys, hys, hall⟩ := ih
      exact ⟨x.text :: ys, by rw [hys]; rfl, .cons (.inl rfl) hall⟩

section
variable {scope : Text} {names : List Text} (hnames : ∀ n ∈ names, Blunt n.getLast?)
include hnames

theorem lengthened_renamedToken {x : ValueToken} {y v v' : Text}
    (hx : ∀ w, x = .word w → w ≠ [] ∧ ∀ d ∈ v.head?, d ≠ '*')
    (hy : y = x.text ∨ RenamedToken scope names x y) (h : Lengthened (nameSuffix scope) v v') :
    Lengthened (nameSuffix scope) (x.text ++ v) (y ++ v') := by
  rcases hy with rfl | hy
  · exact h.append_left x.text
  · cases hy with
    | @word w hw =>
        obtain ⟨hne, hhead⟩ := hx w rfl
        rw [scopedName_eq_append, List.append_assoc]
        exact h.word hne (hnames w hw) hhead
    | quoted hq hn => exact lengthened_quoted hq (hnames _ hn) h
    | other => exact h.append_left x.text

theorem lengthened_tokens {v : Text} {ys : List Text}
    (h : List.Forall₂ (fun x y => y = x.text ∨ RenamedToken scope names x y) (valueTokens v) ys) :
    Lengthened (nameSuffix scope) v ys.flatten := by
  fun_induction valueTokens v generalizing ys with
  | case1 =>
      obtain rfl := List.forall₂_nil_left_iff.1 h
      exact .refl _ _
  | case2 c r x rest hread ih =>
      obtain ⟨y, ys, hy, hys, rfl⟩ := List.forall₂_cons_left_iff.1 h
      have htakes := ValueToken.takes_read c r
      rw [hread] at htakes
      rw [← htakes.1, List.flatten_cons]
      refine lengthened_renamedToken hnames ?_ hy (ih hys)
      rintro w rfl
      exact ValueToken.head?_of_word hread

theorem lengthened_shorthand (v : Text) :
    Lengthened (nameSuffix scope) v (renameShorthand (tableOf scope names) v) := by
  obtain ⟨ys, hys, hall⟩ := forall₂_renameEntries (tableOf scope names) false (valueTokens v)
  rw [renameShorthand, hys]
  apply lengthened_tokens hnames
  refine hall.imp fun x y hy => hy.imp id ?_
  rintro rfl
  exact renamedToken_renameToken scope names x

theorem lengthened_names (v : Text) :
    Lengthened (nameSuffix scope) v (renameNames (tableOf scope names) v) := by
  rw [renameNames, List.flatMap_def]
  apply lengthened_tokens hnames
  refine List.forall₂_map_right_iff.2 (List.forall₂_same.2 fun x _ => .inr ?_)
  exact renamedToken_renameToken scope names x

/-- The value of a declaration is lengthened by what renames its animations. -/
theorem lengthened_value (d : Declaration) :
    Lengthened (nameSuffix scope) d.value (renameDeclaration (tableOf scope names) d).value := by
  unfold renameDeclaration
  split
  · exact lengthened_names hnames d.value
  · split
    · exact lengthened_shorthand hnames d.value
    · exact .refl _ _

end

theorem lengthened_params {scope params : Text} (hne : params ≠ [])
    (h : Blunt (paramsName params).getLast?) :
    Lengthened (nameSuffix scope) params (scopedParams params scope) := by
  unfold paramsName at h
  unfold scopedParams
  split
  · next q n hn =>
    rw [hn] at h
    obtain ⟨hq, rfl⟩ := unquote?_eq_some_iff.1 hn
    simpa using lengthened_quoted hq h (Lengthened.refl (nameSuffix scope) [])
  · next hn =>
    rw [hn] at h
    rw [scopedName_eq_append]
    simpa using (Lengthened.refl (nameSuffix scope) []).word hne h (by simp)

end StyleScope.Animation
