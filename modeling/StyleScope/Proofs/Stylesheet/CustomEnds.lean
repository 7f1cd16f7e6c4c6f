import StyleScope.Proofs.Stylesheet.Chunks
import StyleScope.Proofs.Text.Covers

/-! # Where custom properties end

The value of a custom property may hold brackets and blocks, strings and comments. It is read piece
by piece (`Piece`): an escape, a string and a comment are one piece each and expose nothing, any
other character is a piece of its own and is exposed. The property ends at the first place between
pieces where the text ends, a closing brace closes none of the exposed braces, or a semicolon stands
outside of the exposed brackets and braces (`EndsCustom`).

What is open is said without counting levels: an opening sign is unclosed if from there on at no
point more signs have closed than opened (`Signs.Unclosed`). The counters of the scan are zero just
when nothing is unclosed (`Signs.level_eq_zero_iff`), and with that the scan stops at the first such
place (`endsFirst_cutCustomProperty`).
-/
namespace StyleScope.Stylesheet
open Text

structure Signs where
  opens : Char → Bool
  closes : Char → Bool
  disjoint : ∀ c, opens c = true → closes c = false

namespace Signs
variable (k : Signs) {n : Nat} {c : Char} {t : Text}

/-- Some sign that opens has not been closed. Signs of several shapes count as one. -/
def Unclosed (t : Text) : Prop :=
  ∃ before c behind, t = before ++ c :: behind ∧ k.opens c = true ∧
    ∀ u, u <+: behind → u.countP k.closes ≤ u.countP k.opens

/-- The number of open signs behind one more character; a sign that closes none is ignored. -/
def step (n : Nat) (c : Char) : Nat :=
  if k.opens c then n + 1 else if k.closes c then n - 1 else n

def level (n : Nat) (t : Text) : Nat := t.foldl k.step n

/-- Of `n` open signs the text never closes all. -/
def Lasts (n : Nat) (t : Text) : Prop := ∀ u, u <+: t → u.countP k.closes < n + u.countP k.opens

variable {k}

theorem Lasts.pos (h : k.Lasts n t) : 0 < n := by
  simpa using h [] List.nil_prefix

theorem Lasts.mono {m : Nat} (h : k.Lasts m t) (hle : m ≤ n) : k.Lasts n t := by
  intro u hu
  have hlt := h u hu
  omega

theorem countP_cons_lt_iff (hpos : 0 < n) (u : Text) :
    (c :: u).countP k.closes < n + (c :: u).countP k.opens ↔
      u.countP k.closes < k.step n c + u.countP k.opens := by
  rw [List.countP_cons, List.countP_cons, step]
  cases hopen : k.opens c with
  | true =>
      simp only [k.disjoint c hopen, Bool.false_eq_true, if_true, if_false]
      omega
  | false =>
      cases k.closes c with
      | true =>
          simp only [Bool.false_eq_true, if_true, if_false]
          omega
      | false => simp only [Bool.false_eq_true, if_false, Nat.add_zero]

theorem lasts_cons : k.Lasts n (c :: t) ↔ 0 < n ∧ k.Lasts (k.step n c) t := by
  constructor
  · intro h
    refine ⟨h.pos, fun u hu => ?_⟩
    exact (countP_cons_lt_iff h.pos u).1 (h (c :: u) ((List.prefix_cons_inj c).2 hu))
  · rintro ⟨hpos, h⟩ v hv
    obtain rfl | ⟨u, rfl, hu⟩ := List.prefix_cons_iff.1 hv
    · simpa using hpos
    · exact (countP_cons_lt_iff hpos u).2 (h u hu)

theorem unclosed_cons : k.Unclosed (c :: t) ↔ (k.opens c = true ∧ k.Lasts 1 t) ∨ k.Unclosed t := by
  have hlasts (u : Text) :
      (∀ v, v <+: u → v.countP k.closes ≤ v.countP k.opens) ↔ k.Lasts 1 u := by
    refine forall₂_congr fun v _ => ?_
    omega
  constructor
  · rintro ⟨before, o, behind, ht, hopen, hbehind⟩
    cases before with
    | nil =>
        obtain ⟨rfl, rfl⟩ := List.cons.inj ht
        exact .inl ⟨hopen, (hlasts _).1 hbehind⟩
    | cons d before =>
        obtain ⟨rfl, rfl⟩ := List.cons.inj ht
        exact .inr ⟨before, o, behind, rfl, hopen, hbehind⟩
  · rintro (⟨hopen, hlast⟩ | ⟨before, o, behind, rfl, hopen, hbehind⟩)
    · exact ⟨[], c, t, rfl, hopen, (hlasts t).2 hlast⟩
    · exact ⟨c :: before, o, behind, rfl, hopen, hbehind⟩

theorem level_pos_iff : 0 < k.level n t ↔ k.Unclosed t ∨ k.Lasts n t := by
  induction t generalizing n with
  | nil => simp [level, Unclosed, Lasts]
  | cons c t ih =>
      have hstep : k.level n (c :: t) = k.level (k.step n c) t := rfl
      rw [hstep, ih, unclosed_cons, lasts_cons]
      constructor
      · rintro (hopen | hlast)
        · exact .inl (.inr hopen)
        · by_cases hpos : 0 < n
          · exact .inr ⟨hpos, hlast⟩
          · -- nothing was open before, so it is this sign that is not closed
            obtain rfl : n = 0 := by omega
            cases hopen : k.opens c with
            | true => exact .inl (.inl ⟨rfl, by simpa [step, hopen] using hlast⟩)
            | false => exact absurd hlast.pos (by simp [step, hopen])
      · rintro ((⟨hopen, hlast⟩ | hopen) | ⟨-, hlast⟩)
        · refine .inr (hlast.mono ?_)
          simp only [step, hopen, if_true]
          omega
        · exact .inl hopen
        · exact .inr hlast

/-- A counter that never falls below zero is zero just when no sign is left open. -/
theorem level_eq_zero_iff : k.level 0 t = 0 ↔ ¬k.Unclosed t := by
  have hpos := level_pos_iff (k := k) (n := 0) (t := t)
  have hlast : ¬k.Lasts 0 t := fun h => absurd h.pos (by omega)
  rw [or_iff_left hlast] at hpos
  rw [← hpos]
  omega

end Signs

def brackets : Signs where
  opens c := c = '(' || c = '['
  closes c := c = ')' || c = ']'
  disjoint := by
    intro c hc
    obtain rfl | rfl : c = '(' ∨ c = '[' := by simpa using hc
    · rfl
    · rfl

def braces : Signs where
  opens c := c = '{'
  closes c := c = '}'
  disjoint := by
    intro c hc
    obtain rfl : c = '{' := by simpa using hc
    rfl

/-- What a text starts with: the characters it exposes, and what follows. -/
inductive Piece : Text → Text → Text → Prop
  | escape {c : Char} {r : Text} : Piece ('\\' :: c :: r) [] r
  | backslash : Piece ['\\'] [] []
  | string {q : Char} {r : Text} : isQuote q = true → Piece (q :: r) [] (splitString true q r).2
  | comment {r : Text} : Piece ('/' :: '*' :: r) [] (splitComment r).2
  | char {c : Char} {r : Text} : c ≠ '\\' → isQuote c = false → startsComment (c :: r) = false →
      Piece (c :: r) [c] r

/-- Pieces in a row: the characters they expose, and what follows. -/
inductive Pieces : Text → Text → Text → Prop
  | nil {t : Text} : Pieces t [] t
  | cons {t u v e f : Text} : Piece t e u → Pieces u f v → Pieces t (e ++ f) v

/-- A custom property ends here, behind the exposed characters `e`. -/
inductive EndsCustom (e : Text) : Text → Prop
  | text : EndsCustom e []
  | brace {r : Text} : ¬braces.Unclosed e → EndsCustom e ('}' :: r)
  | semicolon {r : Text} : ¬braces.Unclosed e → ¬brackets.Unclosed e → EndsCustom e (';' :: r)

/-- The text that is left is the first place in `t` where a custom property ends: it ends there, and
wherever else it could end comes later. -/
def EndsFirst (t tail : Text) : Prop :=
  (∃ e, Pieces t e tail ∧ EndsCustom e tail) ∧
    ∀ e u, Pieces t e u → EndsCustom e u → u <:+ tail

theorem exists_piece {t : Text} (ht : t ≠ []) : ∃ e u, Piece t e u := by
  obtain ⟨c, r, rfl⟩ := List.exists_cons_of_ne_nil ht
  by_cases hback : c = '\\'
  · subst hback
    cases r with
    | nil => exact ⟨_, _, .backslash⟩
    | cons d r => exact ⟨_, _, .escape⟩
  · cases hquote : isQuote c with
    | true => exact ⟨_, _, .string hquote⟩
    | false =>
        cases hcomment : startsComment (c :: r) with
        | true =>
            obtain ⟨u, hu⟩ := startsComment_eq_true_iff.1 hcomment
            rw [hu]
            exact ⟨_, _, .comment⟩
        | false => exact ⟨_, _, .char hback hquote hcomment⟩

theorem Piece.unique {t e u e' u' : Text} (h : Piece t e u) (h' : Piece t e' u') :
    e = e' ∧ u = u' := by
  cases h with
  | escape =>
      cases h' with
      | escape => exact ⟨rfl, rfl⟩
      | string hquote => exact absurd hquote (by decide)
      | char hback => exact absurd rfl hback
  | backslash =>
      cases h' with
      | backslash => exact ⟨rfl, rfl⟩
      | string hquote => exact absurd hquote (by decide)
      | char hback => exact absurd rfl hback
  | string hquote =>
      cases h' with
      | escape => exact absurd hquote (by decide)
      | backslash => exact absurd hquote (by decide)
      | string => exact ⟨rfl, rfl⟩
      | comment => exact absurd hquote (by decide)
      | char _ hne => exact absurd hquote (by simp [hne])
  | comment =>
      cases h' with
      | string hquote => exact absurd hquote (by decide)
      | comment => exact ⟨rfl, rfl⟩
      | char _ _ hcomment => exact absurd hcomment (by simp [startsComment])
  | char hback hne hcomment =>
      cases h' with
      | escape => exact absurd rfl hback
      | backslash => exact absurd rfl hback
      | string hquote => exact absurd hquote (by simp [hne])
      | comment => exact absurd hcomment (by simp [startsComment])
      | char => exact ⟨rfl, rfl⟩

theorem Piece.suffix {t e u : Text} (h : Piece t e u) : u <:+ t ∧ u.length < t.length := by
  have hcons {v r : Text} (c : Char) (happ : v ++ u = r) (ht : t = c :: r) :
      u <:+ t ∧ u.length < t.length := by
    subst ht
    subst happ
    refine ⟨⟨c :: v, rfl⟩, ?_⟩
    rw [List.length_cons, List.length_append]
    omega
  cases h with
  | escape => exact hcons '\\' (v := [_]) rfl rfl
  | backslash => exact hcons '\\' (v := []) rfl rfl
  | string => exact hcons _ (splitString_append true _ _) rfl
  | @comment r => exact hcons '/' (v := '*' :: (splitComment r).1) (by simp) rfl
  | char => exact hcons _ (v := []) rfl rfl

theorem Pieces.suffix {t e u : Text} (h : Pieces t e u) : u <:+ t := by
  induction h with
  | nil => exact List.suffix_rfl
  | cons hpiece _ ih => exact ih.trans hpiece.suffix.1

/-! ### The scan for the end -/

/-- The state of the scan behind exposed characters, with the numbers of open signs. -/
def customState (depth blocks : Nat) (cover : Cover) : BlockNesting := ⟨⟨cover, depth⟩, blocks⟩

/-- A custom property ends here, if so many signs are open. -/
inductive EndsAt (depth blocks : Nat) : Text → Prop
  | text : EndsAt depth blocks []
  | brace {r : Text} : blocks = 0 → EndsAt depth blocks ('}' :: r)
  | semicolon {r : Text} : blocks = 0 → depth = 0 → EndsAt depth blocks (';' :: r)

theorem endsCustom_iff {e t : Text} :
    EndsCustom e t ↔ EndsAt (brackets.level 0 e) (braces.level 0 e) t := by
  constructor
  · rintro (_ | hbraces | ⟨hbraces, hbrackets⟩)
    · exact .text
    · exact .brace (Signs.level_eq_zero_iff.2 hbraces)
    · exact .semicolon (Signs.level_eq_zero_iff.2 hbraces) (Signs.level_eq_zero_iff.2 hbrackets)
  · rintro (_ | hbraces | ⟨hbraces, hbrackets⟩)
    · exact .text
    · exact .brace (Signs.level_eq_zero_iff.1 hbraces)
    · exact .semicolon (Signs.level_eq_zero_iff.1 hbraces) (Signs.level_eq_zero_iff.1 hbrackets)

section
variable {depth blocks : Nat} {cover : Cover} {t : Text}

theorem hides_customScan (depth blocks : Nat) :
    customScan.Hides statementDialect (customState depth blocks) where
  stops c hcover := by simp [customScan, customState, Nesting.isTop, hcover]
  next c hcover := by simp [customScan, customState, Nesting.next, hcover]

theorem customScan_stops_iff {c : Char} {r : Text} (h : cover.exposes = true) :
    customScan.stops (customState depth blocks cover) c = true ↔ EndsAt depth blocks (c :: r) := by
  simp only [customScan, customState, Nesting.isTop, h, Bool.true_and, Bool.and_eq_true,
    Bool.or_eq_true, decide_eq_true_eq]
  constructor
  · rintro ⟨hblocks, rfl | ⟨hdepth, rfl⟩⟩
    · exact .brace hblocks
    · exact .semicolon hblocks hdepth
  · rintro (_ | hblocks | ⟨hblocks, hdepth⟩)
    · exact ⟨hblocks, .inl rfl⟩
    · exact ⟨hblocks, .inr ⟨hdepth, rfl⟩⟩

theorem customScan_next {c : Char} (h : cover.exposes = true) :
    customScan.next (customState depth blocks cover) c =
      customState (brackets.step depth c) (braces.step blocks c) (cover.next statementDialect c) := by
  simp [customScan, customState, Nesting.next, h, Signs.step, brackets, braces]

/-- The scan gets over a piece in front of which it does not stop, and has counted what is
exposed. -/
theorem Piece.cut {e u : Text} (h : Piece t e u) (hclear : Uncovered cover t)
    (hends : ¬EndsAt depth blocks t) :
    ∃ cover', Uncovered cover' u ∧
      (customScan.cut (customState depth blocks cover) t).2 =
        (customScan.cut (customState (brackets.level depth e) (braces.level blocks e) cover') u).2 := by
  have hhides := hides_customScan depth blocks
  have hfirst {c : Char} {r : Text} (ht : t = c :: r) :
      (customScan.cut (customState depth blocks cover) t).2 =
        (customScan.cut (customState (brackets.step depth c) (braces.step blocks c)
          (Cover.afterExposed statementDialect c)) r).2 := by
    subst ht
    have hstop := mt (customScan_stops_iff hclear.exposes).1 hends
    rw [Scan.cut_cons_snd (by simpa using hstop), customScan_next hclear.exposes, hclear.next]
  cases h with
  | @escape c r =>
      refine ⟨.plain, .inl rfl, (hfirst rfl).trans ?_⟩
      have hcovered : Cover.escape.exposes = false := rfl
      exact Scan.cut_cons_snd (hhides.stops c hcovered) _
  | backslash => exact ⟨.plain, .inl rfl, hfirst rfl⟩
  | @string q r hquote =>
      have hline (c : Char) (_ : statementDialect.lineStrings = true) (hc : isNewline c = true) :
          customScan.stops (customState depth blocks .plain) c = false ∧
            customScan.next (customState depth blocks .plain) c =
              customState depth blocks .plain := by
        obtain rfl | rfl : c = '\n' ∨ c = '\r' := by simpa [isNewline] using hc
        · exact ⟨by simp [customScan], rfl⟩
        · exact ⟨by simp [customScan], rfl⟩
      refine ⟨.plain, .inl rfl, (hfirst rfl).trans ?_⟩
      have hstring := hhides.cut_string hquote hline r
      obtain rfl | rfl : q = '\'' ∨ q = '"' := by simpa [isQuote] using hquote
      · exact hstring
      · exact hstring
  | @comment r =>
      refine ⟨.plain, .inl rfl, (hfirst rfl).trans ?_⟩
      have hstar : customScan.stops (customState depth blocks .slash) '*' = false := by
        simp [customScan]
      have hcomment : customScan.next (customState depth blocks .slash) '*' =
          customState depth blocks .comment := rfl
      refine (Scan.cut_cons_snd hstar r).trans ?_
      rw [hcomment, hhides.cut_comment]
      rfl
  | @char c r hback hquote hcomment =>
      exact ⟨_, uncovered_afterExposed hback hquote fun _ => hcomment, hfirst rfl⟩

end

/-- The scan stops at the first end that comes between two pieces. -/
theorem endsFirst_customScan {t : Text} {cover : Cover} (depth blocks : Nat)
    (hclear : Uncovered cover t) :
    let tail := (customScan.cut (customState depth blocks cover) t).2
    (∃ e, Pieces t e tail ∧ EndsAt (brackets.level depth e) (braces.level blocks e) tail) ∧
      ∀ e u, Pieces t e u → EndsAt (brackets.level depth e) (braces.level blocks e) u →
        u <:+ tail := by
  intro tail
  by_cases hends : EndsAt depth blocks t
  · have htail : tail = t := by
      cases t with
      | nil => rfl
      | cons c r =>
          have hstop := (customScan_stops_iff hclear.exposes).2 hends
          simp only [tail, Scan.cut, hstop, if_true]
    rw [htail]
    exact ⟨⟨[], .nil, hends⟩, fun e u hpieces _ => hpieces.suffix⟩
  · have hne : t ≠ [] := by
      rintro rfl
      exact hends .text
    obtain ⟨e, u, hpiece⟩ := exists_piece hne
    have hlength := hpiece.suffix.2
    obtain ⟨cover', hclear', hcut⟩ := hpiece.cut hclear hends
    have hlevel (k : Signs) (n : Nat) (f : Text) : k.level n (e ++ f) = k.level (k.level n e) f :=
      List.foldl_append
    obtain ⟨⟨f, hpieces, hf⟩, hfirst⟩ :=
      endsFirst_customScan (brackets.level depth e) (braces.level blocks e) hclear'
    rw [← hcut] at hpieces hf hfirst
    refine ⟨⟨e ++ f, .cons hpiece hpieces, ?_⟩, ?_⟩
    · rwa [hlevel, hlevel]
    · intro g v hg hv
      cases hg with
      | nil => exact absurd hv hends
      | @cons _ w _ e' f' hpiece' hrest =>
          obtain ⟨rfl, rfl⟩ := hpiece.unique hpiece'
          rw [hlevel, hlevel] at hv
          exact hfirst f' v hrest hv
termination_by t.length

theorem endsFirst_cutCustomProperty (t : Text) : EndsFirst t (cutCustomProperty t).2 := by
  have hclear : Uncovered .plain t := .inl rfl
  have hfirst := endsFirst_customScan 0 0 hclear
  simp only [← endsCustom_iff] at hfirst
  exact hfirst

end StyleScope.Stylesheet
