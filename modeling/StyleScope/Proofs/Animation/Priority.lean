import StyleScope.Proofs.Animation.Tokens
import StyleScope.Proofs.Animation.Values

/-! # Values with a priority flag

A word put behind a value lengthens the word at its end, if there is one, and is a token of its own
otherwise (`valueTokens_append_word`). So a flag such as `!important` changes nothing in a value
that ends in anything but a word. A word with the flag behind it names no keyframes any more, and
stays as it is: what would have renamed it is lost.
-/
namespace StyleScope.Animation
open Text

/-- The value ends outside of strings, comments and functions. Only its last token can be open. -/
def EndsOutside (v : Text) : Prop := ∀ x ∈ (valueTokens v).getLast?, ¬x.Open

/-- A text that goes on any word it is put behind, and is a word by itself. -/
structure ContinuesWord (u : Text) : Prop where
  ne_nil : u ≠ []
  wordText : WordText u
  head?_ne : u.head? ≠ some '*'

namespace ContinuesWord
variable {u : Text} (hu : ContinuesWord u)
include hu

theorem stands : (ValueToken.word u).Stands [] := .word hu.ne_nil hu.wordText rfl (by simp)

theorem append {w : Text} (hw : WordText w) : WordText (w ++ u) := by
  rw [WordText, splitWord_append_of_all (by rw [hw]) hu.head?_ne, hu.wordText]

theorem any_head? : u.head?.any isSpace = false := by
  cases u with
  | nil => rfl
  | cons c r => exact isSpace_of_isWordChar (hu.wordText.isWordChar c List.mem_cons_self)

end ContinuesWord

section
variable {u : Text} (hu : ContinuesWord u)
include hu

theorem valueTokens_word : valueTokens u = [.word u] := by
  simpa [ValueToken.text] using valueTokens_of_stands hu.stands

/-- A word put behind the last token of a value. -/
theorem valueTokens_last_append_word {x : ValueToken} (h : x.Stands []) (hopen : ¬x.Open) :
    (∃ w, x = .word w ∧ valueTokens (x.text ++ u) = [.word (w ++ u)]) ∨
      (∀ w, x ≠ .word w) ∧ valueTokens (x.text ++ u) = [x, .word u] := by
  by_cases hword : ∃ w, x = .word w
  · obtain ⟨w, rfl⟩ := hword
    left
    refine ⟨w, rfl, ?_⟩
    cases h with
    | word hne hw _ _ =>
        have hlonger : (ValueToken.word (w ++ u)).Stands [] :=
          .word (by simp [hne]) (hu.append hw) rfl (by simp)
        simpa [ValueToken.text] using valueTokens_of_stands hlonger
    | runsOut hx => exact absurd hx hopen
  · right
    have hother : ∀ w, x ≠ .word w := fun w hw => hword ⟨w, hw⟩
    refine ⟨hother, ?_⟩
    rw [valueTokens_of_stands (h.append_end hopen hother hu.any_head?), valueTokens_word hu]

/-- A word put behind a value lengthens the word at its end, or is a token of its own. -/
theorem valueTokens_append_word {v : Text} (hv : EndsOutside v) :
    (∃ xs w, valueTokens v = xs ++ [.word w] ∧ valueTokens (v ++ u) = xs ++ [.word (w ++ u)]) ∨
      (∀ w, (valueTokens v).getLast? ≠ some (.word w)) ∧
        valueTokens (v ++ u) = valueTokens v ++ [.word u] := by
  fun_induction valueTokens v with
  | case1 => exact .inr ⟨by simp, valueTokens_word hu⟩
  | case2 c r x rest hread ih =>
      obtain ⟨happ, hstands⟩ := ValueToken.read_eq_iff.1 hread
      have htokens : valueTokens (c :: r) = x :: valueTokens rest := by
        rw [happ, valueTokens_of_stands hstands]
      rw [EndsOutside, htokens] at hv
      rw [happ, List.append_assoc]
      by_cases hrest : rest = []
      · subst hrest
        rw [List.nil_append, valueTokens_nil]
        have hopen : ¬x.Open := hv x (by simp)
        obtain ⟨w, rfl, hlonger⟩ | ⟨hother, hlonger⟩ := valueTokens_last_append_word hu hstands hopen
        · exact .inl ⟨[], w, rfl, hlonger⟩
        · exact .inr ⟨by simpa using hother, hlonger⟩
      · have hlast : (x :: valueTokens rest).getLast? = (valueTokens rest).getLast? :=
          List.getLast?_append_of_ne_nil [x] (valueTokens_ne_nil hrest)
        rw [hlast] at hv
        rw [valueTokens_of_stands (hstands.append_rest hrest u)]
        obtain ⟨xs, w, hxs, hlonger⟩ | ⟨hother, hlonger⟩ := ih hv
        · exact .inl ⟨x :: xs, w, by rw [hxs]; rfl, by rw [hlonger]; rfl⟩
        · exact .inr ⟨by rwa [hlast], by rw [hlonger]; rfl⟩

end

/-- The entry of the shorthand that the tokens end in has its name. -/
def entryNamed (table : Table) (done : Bool) : List ValueToken → Bool
  | [] => done
  | .comma :: rest => entryNamed table false rest
  | x :: rest =>
    entryNamed table (done || !isKeyword x && (scopedToken? table x).isSome) rest

/-- The shorthand of tokens in a row. -/
theorem renameEntries_append (table : Table) (done : Bool) (xs ys : List ValueToken) :
    renameEntries table done (xs ++ ys) =
      renameEntries table done xs ++ renameEntries table (entryNamed table done xs) ys := by
  fun_induction renameEntries table done xs with
  | case1 => rfl
  | case2 done rest ih =>
      rw [List.cons_append, renameEntries, ih, entryNamed]
      rfl
  | case3 done x rest hx hdone ih =>
      have hstep : (done || !isKeyword x && (scopedToken? table x).isSome) = done := by
        cases done with
        | true => rfl
        | false =>
            have hkeyword : isKeyword x = true := by simpa using hdone
            simp [hkeyword]
      rw [List.cons_append, renameEntries, if_pos hdone, ih, entryNamed, hstep, List.append_assoc]
      · exact hx
      · exact hx
  | case4 done x rest hx hdone renamed hr ih =>
      obtain ⟨hkeyword, rfl⟩ : isKeyword x = false ∧ done = false := by simpa using hdone
      have hstep : (false || !isKeyword x && (scopedToken? table x).isSome) = true := by
        simp [hkeyword, hr]
      rw [List.cons_append, renameEntries, if_neg hdone, hr, entryNamed, hstep]
      · dsimp only
        rw [ih, List.append_assoc]
      · exact hx
      · exact hx
  | case5 done x rest hx hdone hr ih =>
      obtain ⟨-, rfl⟩ : isKeyword x = false ∧ done = false := by simpa using hdone
      have hstep : (false || !isKeyword x && (scopedToken? table x).isSome) = false := by
        simp [hr]
      rw [List.cons_append, renameEntries, if_neg hdone, hr, entryNamed, hstep]
      · dsimp only
        rw [ih, List.append_assoc]
      · exact hx
      · exact hx

def priorityFlag : Text := "!important".toList

theorem continuesWord_priorityFlag : ContinuesWord priorityFlag :=
  ⟨by decide, by decide, by decide⟩

theorem renameToken_of_get?_eq_none {table : Table} {w : Text} (h : table.get? w = none) :
    renameToken table (.word w) = w := by
  rw [renameToken, scopedToken?, h]
  rfl

theorem renameEntries_word (table : Table) (done : Bool) (w : Text) :
    renameEntries table done [.word w] =
      if isKeyword (.word w) || done then w else renameToken table (.word w) := by
  unfold renameEntries renameToken
  split
  · simp [renameEntries, ValueToken.text]
  · split
    · next renamed h => simp [renameEntries, h]
    · next h => simp [renameEntries, h, ValueToken.text]

theorem append_flag_eq_iff {before w renamed flag : Text} :
    before ++ (w ++ flag) = before ++ renamed ++ flag ↔ renamed = w := by
  rw [List.append_assoc, List.append_cancel_left_eq, List.append_cancel_right_eq, eq_comm]

/-- A value whose last token is a word ends in no space. -/
theorem any_isSpace_getLast?_of_word {v : Text} {xs : List ValueToken} {w : Text}
    (h : valueTokens v = xs ++ [.word w]) : v.getLast?.any isSpace = false := by
  have hv : v = xs.flatMap ValueToken.text ++ w := by
    have htext := text_valueTokens v
    rw [h, List.flatMap_append, List.flatMap_singleton] at htext
    exact htext.symm
  obtain ⟨t, hstands⟩ := exists_stands_of_mem (v := v) (x := .word w) (by simp [h])
  cases hstands with
  | word hne hw _ _ =>
      rw [hv, List.getLast?_append_of_ne_nil _ hne]
      cases hlast : w.getLast? with
      | none => rfl
      | some c => exact isSpace_of_isWordChar (hw.isWordChar c (List.mem_of_getLast? hlast))
  | runsOut hopen => exact nomatch hopen

theorem forall_last_word_iff {tokens xs : List ValueToken} {w : Text} (h : tokens = xs ++ [.word w])
    (p : List ValueToken → Text → Prop) :
    (∀ ys w', tokens = ys ++ [.word w'] → p ys w') ↔ p xs w := by
  constructor
  · intro hall
    exact hall xs w h
  · intro hp ys w' hys
    obtain ⟨rfl, hw⟩ := List.append_inj' (h.symm.trans hys) rfl
    obtain rfl : w = w' := by simpa using hw
    exact hp

section
variable {table : Table} (hkeys : ∀ entry ∈ table.entries, '!' ∉ entry.1)
include hkeys

theorem renameToken_append_priorityFlag (w : Text) :
    renameToken table (.word (w ++ priorityFlag)) = w ++ priorityFlag := by
  apply renameToken_of_get?_eq_none
  cases h : table.get? (w ++ priorityFlag) with
  | none => rfl
  | some renamed =>
      obtain ⟨before, behind, hentries, -⟩ := List.lookup_eq_some_iff.1 h
      have hflag : '!' ∈ w ++ priorityFlag := List.mem_append_right w (by decide)
      exact absurd hflag (hkeys (w ++ priorityFlag, renamed) (by simp [hentries]))

theorem renameEntries_append_priorityFlag (done : Bool) (w : Text) :
    renameEntries table done [.word (w ++ priorityFlag)] = w ++ priorityFlag := by
  rw [renameEntries_word, renameToken_append_priorityFlag hkeys, ite_self]

variable {v : Text} (hv : EndsOutside v)
include hv

/-- The flag is inert in the names of animations unless they end in a word that is renamed. -/
theorem renameNames_append_priorityFlag_iff :
    renameNames table (v ++ priorityFlag) = renameNames table v ++ priorityFlag ↔
      ∀ xs w, valueTokens v = xs ++ [.word w] → renameToken table (.word w) = w := by
  obtain ⟨xs, w, hxs, hlonger⟩ | ⟨hother, hlonger⟩ :=
    valueTokens_append_word continuesWord_priorityFlag hv
  · rw [forall_last_word_iff hxs fun _ w => renameToken table (.word w) = w, renameNames,
      renameNames, hxs, hlonger, List.flatMap_append, List.flatMap_append, List.flatMap_singleton,
      List.flatMap_singleton, renameToken_append_priorityFlag hkeys]
    exact append_flag_eq_iff
  · refine iff_of_true ?_ fun xs w hxs => absurd (by simp [hxs]) (hother w)
    have hflag := renameToken_append_priorityFlag hkeys []
    rw [renameNames, hlonger, List.flatMap_append, List.flatMap_singleton, renameNames]
    exact congrArg _ hflag

/-- The flag is inert in the shorthand unless it ends in a word that gives an entry its name. -/
theorem renameShorthand_append_priorityFlag_iff :
    renameShorthand table (v ++ priorityFlag) = renameShorthand table v ++ priorityFlag ↔
      ∀ xs w, valueTokens v = xs ++ [.word w] →
        isKeyword (.word w) = true ∨ entryNamed table false xs = true ∨
          renameToken table (.word w) = w := by
  obtain ⟨xs, w, hxs, hlonger⟩ | ⟨hother, hlonger⟩ :=
    valueTokens_append_word continuesWord_priorityFlag hv
  · rw [forall_last_word_iff hxs fun xs w => isKeyword (.word w) = true ∨
        entryNamed table false xs = true ∨ renameToken table (.word w) = w, renameShorthand,
      renameShorthand, hxs, hlonger, renameEntries_append, renameEntries_append,
      renameEntries_append_priorityFlag hkeys, renameEntries_word]
    refine append_flag_eq_iff.trans ?_
    rw [← or_assoc, ← Bool.or_eq_true]
    split
    · next hstays => simp [hstays]
    · next hrenamed => simp [hrenamed]
  · refine iff_of_true ?_ fun xs w hxs => absurd (by simp [hxs]) (hother w)
    have hflag := renameEntries_append_priorityFlag hkeys
      (entryNamed table false (valueTokens v)) []
    rw [renameShorthand, hlonger, renameEntries_append, renameShorthand]
    exact congrArg _ hflag

/-- The flag is inert in animation values unless what it is put behind is a word that would be
renamed. Such a word ends in no space. -/
theorem priorityFlag_inert_iff :
    (renameNames table (v ++ priorityFlag) = renameNames table v ++ priorityFlag ↔
        ∀ xs w, valueTokens v = xs ++ [.word w] → renameToken table (.word w) = w) ∧
      (renameShorthand table (v ++ priorityFlag) = renameShorthand table v ++ priorityFlag ↔
        ∀ xs w, valueTokens v = xs ++ [.word w] →
          isKeyword (.word w) = true ∨ entryNamed table false xs = true ∨
            renameToken table (.word w) = w) ∧
      (v.getLast?.any isSpace = true →
        renameNames table (v ++ priorityFlag) = renameNames table v ++ priorityFlag ∧
          renameShorthand table (v ++ priorityFlag) = renameShorthand table v ++ priorityFlag) := by
  have hnames := renameNames_append_priorityFlag_iff hkeys hv
  have hshorthand := renameShorthand_append_priorityFlag_iff hkeys hv
  refine ⟨hnames, hshorthand, fun hspace => ?_⟩
  have hlast : ∀ xs w, valueTokens v ≠ xs ++ [.word w] := by
    intro xs w hxs
    rw [any_isSpace_getLast?_of_word hxs] at hspace
    exact absurd hspace (by simp)
  exact ⟨hnames.2 fun xs w hxs => absurd hxs (hlast xs w),
    hshorthand.2 fun xs w hxs => absurd hxs (hlast xs w)⟩

end

/-- The shorthand has its name before the flag, the list of names does not. -/
theorem priorityFlag_inert_second :
    let table := tableOf "s".toList ["a".toList, "b".toList]
    let v : Text := "'a' steps(2, end) b".toList
    (∀ entry ∈ table.entries, '!' ∉ entry.1) ∧ EndsOutside v ∧
      renameShorthand table (v ++ priorityFlag) = renameShorthand table v ++ priorityFlag ∧
      renameNames table (v ++ priorityFlag) ≠ renameNames table v ++ priorityFlag := by
  intro table v
  have htokens : valueTokens v = [.quoted "'a'".toList, .space " ".toList,
      .function "steps(2, end)".toList, .space " ".toList] ++ [.word "b".toList] := by
    decide +kernel
  have hkeys : ∀ entry ∈ table.entries, '!' ∉ entry.1 := by decide
  have hv : EndsOutside v := by
    intro x hx
    obtain rfl : ValueToken.word "b".toList = x := by simpa [htokens] using hx
    exact nofun
  obtain ⟨hnames, hshorthand, -⟩ := priorityFlag_inert_iff hkeys hv
  refine ⟨hkeys, hv, hshorthand.2 fun xs w hxs => ?_, fun hinert => ?_⟩
  · obtain ⟨rfl, -⟩ := List.append_inj' (htokens.symm.trans hxs) rfl
    exact .inr (.inl (by decide +kernel))
  · exact absurd (hnames.1 hinert _ _ htokens) (by decide +kernel)

/-- The only name of a value is not renamed with the flag right behind it. -/
theorem renameNames_priorityFlag_word :
    let table := tableOf "s".toList ["spin".toList]
    let v : Text := "spin".toList
    (∀ entry ∈ table.entries, '!' ∉ entry.1) ∧ EndsOutside v ∧
      renameNames table (v ++ priorityFlag) = "spin!important".toList ∧
      renameNames table v ++ priorityFlag = "spin-s!important".toList ∧
      renameShorthand table (v ++ priorityFlag) = "spin!important".toList ∧
      renameShorthand table v ++ priorityFlag = "spin-s!important".toList := by
  intro table v
  have htokens : valueTokens v = [.word v] := by decide +kernel
  refine ⟨by decide, fun x hx => ?_, by decide +kernel, by decide +kernel, by decide +kernel,
    by decide +kernel⟩
  obtain rfl : ValueToken.word v = x := by simpa [htokens] using hx
  exact nofun

end StyleScope.Animation
