import StyleScope.Proofs.Text.Scans

/-! # Strings and comments within a scan

A scan that looks for something outside of strings and comments does nothing within them but keep
track of where they end. So it comes out of a string where `splitString` ends it, and out of a
comment where `splitComment` does, in the state in which it went in (`Scan.Hides.cut_string`,
`Scan.Hides.cut_comment`).
-/
namespace StyleScope.Text

/-- What covers the next character of a string, behind a backslash or not. -/
def Cover.ofString (quote : Char) : Bool → Cover
  | false => if quote = '\'' then single else double
  | true => if quote = '\'' then singleEscape else doubleEscape

/-- What covers the next character of a comment, behind a star or not. -/
def Cover.ofComment : Bool → Cover
  | false => comment
  | true => star

theorem Cover.exposes_ofString (quote : Char) (escaped : Bool) :
    (ofString quote escaped).exposes = false := by
  by_cases hquote : quote = '\''
  · cases escaped <;> simp [ofString, exposes, hquote]
  · cases escaped <;> simp [ofString, exposes, hquote]

theorem Cover.exposes_ofComment (star : Bool) : (ofComment star).exposes = false := by
  cases star <;> rfl

theorem Cover.next_ofComment (k : Dialect) (star : Bool) {c : Char}
    (h : commentScan.stops star c = false) :
    (ofComment star).next k c = ofComment (commentScan.next star c) := by
  by_cases hc : c = '*'
  · subst hc
    cases star <;> rfl
  · cases star with
    | false => simp [ofComment, next, commentScan, hc]
    | true =>
        have hslash : c ≠ '/' := by simpa [commentScan] using h
        simp [ofComment, next, commentScan, hc, hslash]

theorem Cover.next_ofString (k : Dialect) {quote : Char} (hquote : isQuote quote = true)
    (escaped : Bool) {c : Char} (h : (stringScan k.lineStrings quote).stops escaped c = false) :
    (ofString quote escaped).next k c =
      ofString quote ((stringScan k.lineStrings quote).next escaped c) := by
  obtain rfl | rfl : quote = '\'' ∨ quote = '"' := by simpa [isQuote] using hquote
  all_goals
    cases escaped with
    | true => rfl
    | false =>
        simp only [stringScan, Bool.not_false, Bool.true_and] at h
        by_cases hc : c = '\\'
        · subst hc
          rfl
        · simp [ofString, next, afterCovered, stringScan, hc, h]

/-- The character that ends a string also ends the cover. -/
theorem Cover.next_of_stops (k : Dialect) {quote : Char} (hquote : isQuote quote = true) {c : Char}
    (h : (stringScan k.lineStrings quote).stops false c = true) :
    (ofString quote false).next k c = plain := by
  have hback : c ≠ '\\' := by
    rintro rfl
    obtain rfl | rfl : quote = '\'' ∨ quote = '"' := by simpa [isQuote] using hquote
    · exact absurd h (by simp [stringScan, isNewline])
    · exact absurd h (by simp [stringScan, isNewline])
  simp only [stringScan, Bool.not_false, Bool.true_and] at h
  obtain rfl | rfl : quote = '\'' ∨ quote = '"' := by simpa [isQuote] using hquote
  · simp only [ofString, next, afterCovered, hback, if_true, if_false, h]
  · simp [ofString, next, afterCovered, hback, h]

theorem Scan.cut_cons {σ : Type} {m : Scan σ} {s : σ} {c : Char} (h : m.stops s c = false)
    (r : Text) :
    m.cut s (c :: r) = (c :: (m.cut (m.next s c) r).1, (m.cut (m.next s c) r).2) := by
  rw [cut, if_neg (by simp [h])]

/-- What is left behind a character at which the scan does not stop. -/
theorem Scan.cut_cons_snd {σ : Type} {m : Scan σ} {s : σ} {c : Char} (h : m.stops s c = false)
    (r : Text) : (m.cut s (c :: r)).2 = (m.cut (m.next s c) r).2 := by
  rw [cut_cons h]

/-- Within covered text the scan never stops, and only the cover in its state changes. -/
structure Scan.Hides {σ : Type} (m : Scan σ) (k : Dialect) (state : Cover → σ) : Prop where
  stops {cover : Cover} (c : Char) : cover.exposes = false → m.stops (state cover) c = false
  next {cover : Cover} (c : Char) : cover.exposes = false →
    m.next (state cover) c = state (cover.next k c)

namespace Scan.Hides
variable {σ : Type} {m : Scan σ} {k : Dialect} {state : Cover → σ} (h : m.Hides k state)
include h

theorem passes_comment {star : Bool} {body : Text} (hbody : commentScan.Passes star body) :
    m.Passes (state (.ofComment star)) body ∧
      m.after (state (.ofComment star)) body = state (.ofComment (commentScan.after star body)) := by
  induction body generalizing star with
  | nil => exact ⟨passes_nil, rfl⟩
  | cons c r ih =>
      obtain ⟨hstop, hrest⟩ := passes_cons.1 hbody
      have hcover := Cover.exposes_ofComment star
      rw [passes_cons, after_cons, after_cons, h.next c hcover, Cover.next_ofComment k star hstop]
      exact ⟨⟨h.stops c hcover, (ih hrest).1⟩, (ih hrest).2⟩

theorem passes_string {quote : Char} (hquote : isQuote quote = true) {escaped : Bool} {body : Text}
    (hbody : (stringScan k.lineStrings quote).Passes escaped body) :
    m.Passes (state (.ofString quote escaped)) body ∧
      m.after (state (.ofString quote escaped)) body =
        state (.ofString quote ((stringScan k.lineStrings quote).after escaped body)) := by
  induction body generalizing escaped with
  | nil => exact ⟨passes_nil, rfl⟩
  | cons c r ih =>
      obtain ⟨hstop, hrest⟩ := passes_cons.1 hbody
      have hcover := Cover.exposes_ofString quote escaped
      rw [passes_cons, after_cons, after_cons, h.next c hcover,
        Cover.next_ofString k hquote escaped hstop]
      exact ⟨⟨h.stops c hcover, (ih hrest).1⟩, (ih hrest).2⟩

/-- A scan goes on behind a comment as if there had been none. -/
theorem cut_comment (r : Text) :
    m.cut (state .comment) r =
      ((splitComment r).1 ++ (m.cut (state .plain) (splitComment r).2).1,
        (m.cut (state .plain) (splitComment r).2).2) := by
  obtain ⟨body, rest, rfl, hpass, hstar, hsplit⟩ | ⟨hpass, hsplit⟩ := splitComment_cases r
  · obtain ⟨hbody, hafter⟩ := h.passes_comment hpass
    rw [hstar] at hafter
    have hcover := Cover.exposes_ofComment true
    have hslash : m.Passes (state .comment) (body ++ ['/']) ∧
        m.after (state .comment) (body ++ ['/']) = state .plain := by
      rw [passes_append, after_append, show m.after (state .comment) body = _ from hafter,
        passes_cons, after_cons, h.next '/' hcover]
      exact ⟨⟨hbody, h.stops '/' hcover, passes_nil⟩, rfl⟩
    rw [hsplit, ← List.singleton_append (x := '/'), ← List.append_assoc,
      cut_append_of_passes hslash.1, hslash.2]
  · rw [hsplit, show m.cut (state .comment) r = _ from (h.passes_comment hpass).1]
    simp [cut]

/-- A scan goes on behind a string as if there had been none. -/
theorem cut_string {quote : Char} (hquote : isQuote quote = true)
    (hline : ∀ c, k.lineStrings = true → isNewline c = true →
      m.stops (state .plain) c = false ∧ m.next (state .plain) c = state .plain) (r : Text) :
    (m.cut (state (.ofString quote false)) r).2 =
      (m.cut (state .plain) (splitString k.lineStrings quote r).2).2 := by
  rcases hcut : (stringScan k.lineStrings quote).cut false r with ⟨body, _ | ⟨c, rest⟩⟩
  · obtain ⟨rfl, hpass⟩ := cut_eq_nil_iff.1 hcut
    rw [splitString, hcut, show m.cut _ r = _ from (h.passes_string hquote hpass).1]
    rfl
  · obtain ⟨rfl, hpass, hstop⟩ := cut_eq_cons_iff.1 hcut
    obtain ⟨hbody, hafter⟩ := h.passes_string hquote hpass
    have hend : (stringScan k.lineStrings quote).after false body = false := by
      rw [← Bool.not_eq_true]
      intro hescaped
      rw [hescaped] at hstop
      exact absurd hstop (by simp [stringScan])
    rw [hend] at hafter hstop
    have hcover := Cover.exposes_ofString quote false
    rw [cut_append_of_passes hbody, hafter, splitString, hcut]
    dsimp only
    rw [cut_cons_snd (h.stops c hcover), h.next c hcover, Cover.next_of_stops k hquote hstop]
    split
    · rfl
    · next hne =>
      -- the string ends with its line, and the newline is passed over outside of it
      obtain ⟨hk, hnewline⟩ : k.lineStrings = true ∧ isNewline c = true := by
        simpa [stringScan, hne] using hstop
      obtain ⟨hpasses, hstays⟩ := hline c hk hnewline
      rw [cut_cons_snd hpasses, hstays]

end Scan.Hides

/-- Nothing covers what comes next, and it does not make a comment of a slash before. -/
def Uncovered (cover : Cover) (t : Text) : Prop :=
  cover = .plain ∨ cover = .slash ∧ ∀ c ∈ t.head?, c ≠ '*'

theorem Uncovered.exposes {cover : Cover} {t : Text} (h : Uncovered cover t) :
    cover.exposes = true := by
  rcases h with rfl | ⟨rfl, -⟩ <;> rfl

/-- A slash before makes no difference to the next cover. -/
theorem Uncovered.next (k : Dialect) {cover : Cover} {c : Char} {r : Text}
    (h : Uncovered cover (c :: r)) : cover.next k c = Cover.afterExposed k c := by
  rcases h with rfl | ⟨rfl, hstar⟩
  · rfl
  · rw [Cover.next, if_neg (hstar c rfl)]

theorem uncovered_afterExposed {k : Dialect} {c : Char} {r : Text} (hback : c ≠ '\\')
    (hquote : isQuote c = false) (hcomment : k.comments = true → startsComment (c :: r) = false) :
    Uncovered (Cover.afterExposed k c) r := by
  obtain ⟨hsingle, hdouble⟩ : c ≠ '\'' ∧ c ≠ '"' := by simpa [isQuote] using hquote
  by_cases hslash : c = '/' ∧ k.comments = true
  · obtain ⟨rfl, hk⟩ := hslash
    refine .inr ⟨by simp [Cover.afterExposed, hk], ?_⟩
    rintro d hd rfl
    obtain ⟨v, rfl⟩ := List.head?_eq_some_iff.1 hd
    exact absurd (hcomment hk) (by simp [startsComment])
  · exact .inl (by simpa [Cover.afterExposed, hback, hsingle, hdouble] using hslash)

end StyleScope.Text
