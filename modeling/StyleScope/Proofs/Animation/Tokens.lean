import Mathlib.Data.List.Basic
import StyleScope.Animation.Value
import StyleScope.Proofs.Text.Scans

/-! # The grammar of animation values

`ValueToken.Stands x t` says, one rule for each kind of token, that the token `x` is well formed and
that `t` may follow it: a word must not go on in `t`, space must not either, and a comment, string
or function without its end needs `t` to be empty. Reading takes `x` off a value and leaves `t`
exactly when `x` stands in front of `t` and the two make up the value (`ValueToken.read_eq_iff`).

Where a word ends is known from the characters around that place alone (`splitWord_eq_iff`).
-/
namespace StyleScope.Animation
open Text

def WordText (w : Text) : Prop := splitWord w = (w, [])

instance (w : Text) : Decidable (WordText w) := inferInstanceAs (Decidable (splitWord w = (w, [])))

/-- No word goes on here. -/
def WordEnds (t : Text) : Prop := splitWord t = ([], t)

def isWordChar (c : Char) : Bool := !(isSpace c || c = ',' || isQuote c || c = '(')

theorem isSpace_of_isWordChar {c : Char} (h : isWordChar c = true) : isSpace c = false := by
  simp only [isWordChar, Bool.not_eq_true', Bool.or_eq_false_iff] at h
  exact h.1.1.1

theorem splitWord_cons (c : Char) (r : Text) :
    splitWord (c :: r) =
      if isWordChar c && !startsComment (c :: r) then (c :: (splitWord r).1, (splitWord r).2)
      else ([], c :: r) := by
  have hword : isWordChar c = !(isSpace c || c = ',' || isQuote c || c = '(') := rfl
  rw [splitWord, hword]
  cases (isSpace c || c = ',' || isQuote c || c = '(') with
  | true => simp
  | false => cases startsComment (c :: r) <;> simp

theorem wordEnds_cons_iff {c : Char} {r : Text} :
    WordEnds (c :: r) ↔ isWordChar c = false ∨ startsComment (c :: r) = true := by
  rw [WordEnds, splitWord_cons]
  cases isWordChar c with
  | false => simp
  | true => cases startsComment (c :: r) <;> simp

theorem all_splitWord (t : Text) : (splitWord t).1.all isWordChar = true := by
  fun_induction splitWord t with
  | case1 => rfl
  | case2 => rfl
  | case3 c r h p ih =>
      rw [List.all_cons, ih, Bool.and_true]
      simp only [Bool.not_eq_true, Bool.or_eq_false_iff] at h
      simp [isWordChar, h]

theorem WordText.isWordChar {w : Text} (h : WordText w) : ∀ c ∈ w, isWordChar c = true := by
  have hall := all_splitWord w
  rw [h] at hall
  exact List.all_eq_true.1 hall

/-- Behind a character that is no star it is known whether a comment opens. -/
theorem startsComment_cons_append {t u : Text} (c : Char) (h : t ≠ [] ∨ u.head? ≠ some '*') :
    startsComment (c :: (t ++ u)) = startsComment (c :: t) := by
  by_cases hc : c = '/'
  · subst hc
    cases t with
    | cons d t =>
        by_cases hd : d = '*'
        · subst hd
          rfl
        · simp [startsComment, hd]
    | nil =>
        have hu : u.head? ≠ some '*' := h.resolve_left (by simp)
        cases u with
        | nil => rfl
        | cons d u =>
            have hd : d ≠ '*' := by simpa using hu
            simp [startsComment, hd]
  · simp [startsComment, hc]

section
variable {t u w rest : Text}

/-- Nothing behind the end of a word bears on it. -/
theorem splitWord_append_of_rest (h : (splitWord t).2 ≠ []) (u : Text) :
    splitWord (t ++ u) = ((splitWord t).1, (splitWord t).2 ++ u) := by
  induction t with
  | nil => exact absurd rfl h
  | cons c t ih =>
      cases t with
      | nil =>
          -- a word of one character is all there is
          have hc : ¬(isWordChar c && !startsComment [c]) = true := by
            intro hc
            rw [splitWord_cons, if_pos hc] at h
            exact h rfl
          have hchar : isWordChar c = false := by simpa [startsComment] using hc
          rw [List.cons_append, splitWord_cons, splitWord_cons, hchar]
          rfl
      | cons d t =>
          rw [splitWord_cons] at h
          rw [List.cons_append, splitWord_cons, startsComment_cons_append c (.inl (by simp)),
            splitWord_cons c (d :: t)]
          split at h
          · next hc => rw [if_pos hc, if_pos hc, ih h]
          · next hc =>
            rw [if_neg hc, if_neg hc]
            rfl

/-- A word goes on in what is put behind it. -/
theorem splitWord_append_of_all (h : (splitWord t).2 = []) (hu : u.head? ≠ some '*') :
    splitWord (t ++ u) = (t ++ (splitWord u).1, (splitWord u).2) := by
  induction t with
  | nil => rfl
  | cons c t ih =>
      rw [splitWord_cons] at h
      rw [List.cons_append, splitWord_cons, startsComment_cons_append c (.inr hu)]
      split at h
      · next hc =>
        rw [if_pos hc, ih h]
        rfl
      · exact absurd h (by simp)

/-- What was cut off as a word is a word. -/
theorem wordText_of_splitWord (h : splitWord t = (w, rest)) : WordText w := by
  have happ := splitWord_append w
  have hsnd : (splitWord w).2 = [] := by
    refine Decidable.byContradiction fun hne => ?_
    have hcut := splitWord_append_of_rest hne rest
    have ht : w ++ rest = t := by simpa [h] using splitWord_append t
    rw [ht, h] at hcut
    have hfst : w = (splitWord w).1 := congrArg Prod.fst hcut
    rw [← hfst] at happ
    exact hne (List.append_right_eq_self.1 happ)
  rw [hsnd, List.append_nil] at happ
  exact Prod.ext happ hsnd

theorem wordEnds_splitWord (t : Text) : WordEnds (splitWord t).2 := by
  induction t with
  | nil => rfl
  | cons c t ih =>
      rw [splitWord_cons]
      split
      · exact ih
      · next hc => rw [WordEnds, splitWord_cons, if_neg hc]

theorem WordEnds.head?_ne (h : WordEnds t) : t.head? ≠ some '*' := by
  cases t with
  | nil => simp
  | cons c r =>
      rintro hc
      obtain rfl : c = '*' := Option.some.inj hc
      exact absurd (wordEnds_cons_iff.1 h)
        (by simp [isWordChar, isSpace, isQuote, startsComment])

/-- A word is cut off where both pieces say so. -/
theorem splitWord_eq_iff :
    splitWord t = (w, rest) ↔ t = w ++ rest ∧ WordText w ∧ WordEnds rest := by
  constructor
  · intro h
    have happ := splitWord_append t
    have hends := wordEnds_splitWord t
    rw [h] at happ hends
    exact ⟨happ.symm, wordText_of_splitWord h, hends⟩
  · rintro ⟨rfl, hw, hends⟩
    rw [splitWord_append_of_all (by rw [hw]) hends.head?_ne, hends, List.append_nil]

end

namespace ValueToken

inductive Open : ValueToken → Prop
  | comment {body : Text} : commentScan.Passes false body → Open (.comment ('/' :: '*' :: body))
  | string {q : Char} {body : Text} : isQuote q = true → (stringScan false q).Passes false body →
      Open (.quoted (q :: body))
  | function {w body : Text} : WordText w → functionScan.Passes 0 body →
      Open (.function (w ++ '(' :: body))

/-- A well-formed token and a text that may follow it. -/
inductive Stands : ValueToken → Text → Prop
  | comment {body t : Text} : commentScan.Passes false body →
      commentScan.after false body = true → Stands (.comment ('/' :: '*' :: body ++ ['/'])) t
  | space {c : Char} {r t : Text} : (c :: r).all isSpace = true → t.head?.any isSpace = false →
      Stands (.space (c :: r)) t
  | comma {t : Text} : Stands .comma t
  | string {q : Char} {body t : Text} : isQuote q = true →
      (stringScan false q).Passes false body → (stringScan false q).after false body = false →
      Stands (.quoted (quote q body)) t
  | function {w body t : Text} : WordText w → functionScan.Passes 0 body →
      functionScan.after 0 body = 0 → Stands (.function (w ++ '(' :: body ++ [')'])) t
  | word {w t : Text} : w ≠ [] → WordText w → WordEnds t → t.head? ≠ some '(' → Stands (.word w) t
  /-- A token without its end runs to the end. -/
  | runsOut {x : ValueToken} : x.Open → Stands x []

variable {c : Char} {r rest t : Text} {x : ValueToken}

theorem stands_comment {body : Text} (h : comment? t = some (body, rest)) :
    (ValueToken.comment body).Stands rest := by
  unfold comment? at h
  split at h
  · next r =>
    obtain ⟨rfl, rfl⟩ : '/' :: '*' :: (splitComment r).1 = body ∧ (splitComment r).2 = rest := by
      simpa using h
    obtain ⟨body, rest, -, hpass, hstar, hsplit⟩ | ⟨hpass, hsplit⟩ := splitComment_cases r
    · rw [hsplit]
      exact .comment hpass hstar
    · rw [hsplit]
      exact .runsOut (.comment hpass)
  · exact absurd h (by simp)

theorem stands_string {q : Char} (hq : isQuote q = true) (t : Text) :
    (ValueToken.quoted (q :: (splitString false q t).1)).Stands (splitString false q t).2 := by
  unfold splitString
  rcases h : (stringScan false q).cut false t with ⟨a, _ | ⟨c, r⟩⟩
  · obtain ⟨rfl, hpass⟩ := Scan.cut_eq_nil_iff.1 h
    exact .runsOut (.string hq hpass)
  · obtain ⟨-, hpass, hstop⟩ := Scan.cut_eq_cons_iff.1 h
    obtain ⟨hend, rfl⟩ : (stringScan false q).after false a = false ∧ c = q := by
      simpa [stringScan] using hstop
    dsimp only
    rw [if_pos rfl]
    exact .string hq hpass hend

theorem stands_function {w : Text} (hw : WordText w) (t : Text) :
    (ValueToken.function (w ++ '(' :: (splitFunction t).1)).Stands (splitFunction t).2 := by
  unfold splitFunction Scan.through
  rcases h : functionScan.cut 0 t with ⟨a, _ | ⟨c, r⟩⟩
  · obtain ⟨rfl, hpass⟩ := Scan.cut_eq_nil_iff.1 h
    exact .runsOut (.function hw hpass)
  · obtain ⟨-, hpass, hstop⟩ := Scan.cut_eq_cons_iff.1 h
    obtain ⟨rfl, hdepth⟩ : c = ')' ∧ functionScan.after 0 a = 0 := by
      simpa [functionScan] using hstop
    simpa using Stands.function (t := r) hw hpass hdepth

theorem stands_readWord (hcomment : startsComment (c :: r) = false)
    (hc : isWordChar c = true ∨ c = '(') : (readWord c r).1.Stands (readWord c r).2 := by
  unfold readWord
  rcases h : splitWord (c :: r) with ⟨w, rest⟩
  obtain ⟨happ, hw, hrest⟩ := splitWord_eq_iff.1 h
  dsimp only
  split
  · exact stands_function hw _
  · next hopen =>
    have hne : w ≠ [] := by
      rintro rfl
      obtain rfl : c :: r = rest := happ
      obtain hc | rfl := hc
      · simp [wordEnds_cons_iff, hc, hcomment] at hrest
      · exact hopen r rfl
    rw [if_neg (by simpa using hne)]
    refine .word hne hw hrest fun hhead => ?_
    cases rest with
    | nil => exact absurd hhead (by simp)
    | cons d rest => exact hopen rest (by rw [Option.some.inj hhead])

theorem stands_read (c : Char) (r : Text) : (read c r).1.Stands (read c r).2 := by
  unfold read
  split
  · next body rest h => exact stands_comment h
  · next h =>
    have hcomment := comment?_eq_none_iff.1 h
    split
    · next hspace =>
      refine .space ?_ (any_head?_dropWhile isSpace r)
      rw [List.all_cons, hspace, List.all_takeWhile]
      rfl
    · next hspace =>
      split
      · exact .comma
      · next hcomma =>
        split
        · next hq => exact stands_string hq r
        · next hq =>
          refine stands_readWord hcomment ?_
          by_cases hopen : c = '('
          · exact .inr hopen
          · simp [isWordChar, hspace, hcomma, hq, hopen]

theorem Stands.text_ne_nil (h : x.Stands t) : x.text ≠ [] := by
  cases h with
  | comment => simp [text]
  | space => simp [text]
  | comma => simp [text]
  | string => simp [text, quote]
  | function => simp [text]
  | word hne => exact hne
  | runsOut h =>
      cases h with
      | comment => simp [text]
      | string => simp [text]
      | function => simp [text]

/-- A token that is followed by something does not mind what is put behind that. -/
theorem Stands.append_rest (h : x.Stands t) (ht : t ≠ []) (u : Text) : x.Stands (t ++ u) := by
  have hhead : (t ++ u).head? = t.head? := List.head?_append_of_ne_nil t ht
  cases h with
  | comment hpass hstar => exact .comment hpass hstar
  | space hall hend => exact .space hall (by rw [hhead, hend])
  | comma => exact .comma
  | string hq hpass hend => exact .string hq hpass hend
  | function hw hpass hdepth => exact .function hw hpass hdepth
  | word hne hw hends hopen =>
      refine .word hne hw ?_ (by rwa [hhead])
      rw [WordEnds, splitWord_append_of_rest (by rwa [hends]), hends]
  | runsOut => exact absurd rfl ht

/-- A token with an end of its own does not mind what is put behind it. -/
theorem Stands.append_end {u : Text} (h : x.Stands []) (hopen : ¬x.Open) (hword : ∀ w, x ≠ .word w)
    (hu : u.head?.any isSpace = false) : x.Stands u := by
  cases h with
  | comment hpass hstar => exact .comment hpass hstar
  | space hall => exact .space hall hu
  | comma => exact .comma
  | string hq hpass hend => exact .string hq hpass hend
  | function hw hpass hdepth => exact .function hw hpass hdepth
  | word => exact absurd rfl (hword _)
  | runsOut hx => exact absurd hx hopen

theorem read_eq_readWord (hcomment : startsComment (c :: r) = false)
    (hc : isWordChar c = true ∨ c = '(') : read c r = readWord c r := by
  have hchar : isSpace c = false ∧ c ≠ ',' ∧ isQuote c = false := by
    obtain hc | rfl := hc
    · simp only [isWordChar, Bool.not_eq_true', Bool.or_eq_false_iff, decide_eq_false_iff_not] at hc
      exact ⟨hc.1.1.1, hc.1.1.2, hc.1.2⟩
    · exact ⟨rfl, by decide, rfl⟩
  rw [read, comment?_eq_none_iff.2 hcomment]
  simp [hchar]

theorem read_of_cut {w : Text} (h : splitWord (c :: r) = (w, t)) (hw : w ≠ [] ∨ t.head? = some '(') :
    read c r = readWord c r := by
  rw [splitWord_cons] at h
  split at h
  · next hc =>
    obtain ⟨hchar, hcomment⟩ := Bool.and_eq_true_iff.1 hc
    exact read_eq_readWord (by simpa using hcomment) (.inl hchar)
  · obtain ⟨rfl, rfl⟩ := Prod.mk.inj h
    obtain rfl : c = '(' := by simpa using hw
    exact read_eq_readWord (by simp [startsComment]) (.inr rfl)

theorem comment?_eq_none_of_ne (hc : c ≠ '/') : comment? (c :: r) = none := by
  rw [comment?_eq_none_iff]
  simp [startsComment, hc]

theorem read_string (hq : isQuote c = true) :
    read c r = (quoted (c :: (splitString false c r).1), (splitString false c r).2) := by
  have hne : c ≠ '/' ∧ isSpace c = false ∧ c ≠ ',' := by
    simp only [isQuote, Bool.or_eq_true, decide_eq_true_eq] at hq
    obtain rfl | rfl := hq
    · decide
    · decide
  rw [read, comment?_eq_none_of_ne hne.1]
  simp [hne, hq]

theorem read_function {w body : Text} (hw : WordText w) (happ : c :: r = w ++ '(' :: body) :
    read c r = (function (w ++ '(' :: (splitFunction body).1), (splitFunction body).2) := by
  have hends : WordEnds ('(' :: body) := wordEnds_cons_iff.2 (.inl rfl)
  have hcut : splitWord (c :: r) = (w, '(' :: body) := splitWord_eq_iff.2 ⟨happ, hw, hends⟩
  rw [read_of_cut hcut (.inr rfl)]
  unfold readWord
  rw [hcut]
  rfl

theorem read_of_stands (h : x.Stands t) (happ : c :: r = x.text ++ t) : read c r = (x, t) := by
  cases h with
  | @comment body _ hpass hstar =>
      obtain ⟨rfl, rfl⟩ : c = '/' ∧ r = '*' :: (body ++ '/' :: t) := by
        simpa [text] using happ
      rw [read, comment?, splitComment_closed hpass hstar]
      rfl
  | @space d s _ hspace hhead =>
      obtain ⟨rfl, rfl⟩ : c = d ∧ r = s ++ t := by simpa [text] using happ
      obtain ⟨hc, hs⟩ : isSpace c = true ∧ s.all isSpace = true := by simpa using hspace
      have hslash : c ≠ '/' := by
        rintro rfl
        exact absurd hc (by decide)
      rw [read, comment?_eq_none_of_ne hslash]
      simp only [hc, if_true]
      rw [takeWhile_append_of_all hs hhead, dropWhile_append_of_all hs hhead]
  | comma =>
      obtain ⟨rfl, rfl⟩ : c = ',' ∧ r = t := by simpa [text] using happ
      rfl
  | @string q body _ hq hpass hend =>
      obtain ⟨rfl, rfl⟩ : c = q ∧ r = body ++ q :: t := by simpa [text, quote] using happ
      rw [read_string hq, splitString_closed hpass hend]
      rfl
  | @function w body _ hw hpass hdepth =>
      have hcut : functionScan.cut 0 (body ++ ')' :: t) = (body, ')' :: t) :=
        Scan.cut_eq_cons_iff.2 ⟨rfl, hpass, by rw [hdepth]; rfl⟩
      have hopened : c :: r = w ++ '(' :: (body ++ ')' :: t) := by simpa [text] using happ
      rw [read_function hw hopened, splitFunction, Scan.through, hcut]
      simp
  | @word w _ hne hw hends hopen =>
      have hcut : splitWord (c :: r) = (w, t) := splitWord_eq_iff.2 ⟨happ, hw, hends⟩
      rw [read_of_cut hcut (.inl hne)]
      unfold readWord
      rw [hcut]
      dsimp only
      split
      · exact absurd rfl hopen
      · rw [if_neg (by simpa using hne)]
  | runsOut hx =>
      rw [List.append_nil] at happ
      cases hx with
      | @comment body hpass =>
          obtain ⟨rfl, rfl⟩ : c = '/' ∧ r = '*' :: body := by simpa [text] using happ
          rw [read, comment?, splitComment_open hpass]
      | @string q body hq hpass =>
          obtain ⟨rfl, rfl⟩ : c = q ∧ r = body := by simpa [text] using happ
          rw [read_string hq, splitString_open hpass]
      | @function w body hw hpass =>
          rw [read_function hw happ, splitFunction, Scan.through, hpass]

/-- Reading takes a token off a value just when the token stands in front of what it leaves. -/
theorem read_eq_iff : read c r = (x, t) ↔ c :: r = x.text ++ t ∧ x.Stands t := by
  constructor
  · intro h
    have htakes := (takes_read c r).1
    have hstands := stands_read c r
    rw [h] at htakes hstands
    exact ⟨htakes.symm, hstands⟩
  · rintro ⟨happ, hstands⟩
    exact read_of_stands hstands happ

end ValueToken

@[simp] theorem valueTokens_nil : valueTokens [] = [] := by simp [valueTokens]

theorem valueTokens_ne_nil {v : Text} (h : v ≠ []) : valueTokens v ≠ [] := by
  cases v with
  | nil => exact absurd rfl h
  | cons c r =>
      rw [valueTokens]
      exact List.cons_ne_nil _ _

/-- A token that stands in front of a value is the first one of the two together. -/
theorem valueTokens_of_stands {x : ValueToken} {t : Text} (h : x.Stands t) :
    valueTokens (x.text ++ t) = x :: valueTokens t := by
  cases hxt : x.text ++ t with
  | nil => exact absurd (List.append_eq_nil_iff.1 hxt).1 h.text_ne_nil
  | cons c r =>
      have hread := ValueToken.read_of_stands h hxt.symm
      rw [valueTokens, hread]

/-- Every token of a value stood in front of something. -/
theorem exists_stands_of_mem {v : Text} {x : ValueToken} (h : x ∈ valueTokens v) :
    ∃ t, x.Stands t := by
  fun_induction valueTokens v with
  | case1 => exact absurd h (by simp)
  | case2 c r y rest hread ih =>
      obtain rfl | hmem := List.mem_cons.1 h
      · exact ⟨rest, (ValueToken.read_eq_iff.1 hread).2⟩
      · exact ih hmem

end StyleScope.Animation
