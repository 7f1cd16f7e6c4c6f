import StyleScope.Proofs.Stylesheet.Chunks

/-! # Words put into a statement

Renaming puts words of letters, digits, hyphens and underscores into a statement. Whether such a
word changes where the statement ends depends on its neighbours only: a backslash before it would
cover its first character in place of another one, and it would tear apart the two characters that
open or close a comment. `Padded` says that words are put into a text at places where neither is the
case, and then the statement ends where it ended before (`Padded.cut_snd`).
-/
namespace StyleScope.Stylesheet
open Text

def isScopeChar (c : Char) : Bool := isLetter c || isDigit c || c = '-' || c = '_'

/-- The characters that mean something to the scan for the end of a statement. -/
def statementSigns : List Char :=
  ['{', '}', ';', '\\', '\'', '"', '/', '*', '(', ')', '[', ']', '\n', '\r']

theorem not_mem_statementSigns {c : Char} (h : isScopeChar c = true) : c ∉ statementSigns := by
  have hsigns : statementSigns.all (fun d => !isScopeChar d) = true := by decide
  intro hc
  have hnot := List.all_eq_true.1 hsigns c hc
  rw [h] at hnot
  exact absurd hnot (by decide)

/-- No backslash, and not the star that may end a comment. -/
def Blunt (last : Option Char) : Prop := ∀ c ∈ last, c ≠ '\\' ∧ c ≠ '*'

instance : (last : Option Char) → Decidable (Blunt last)
  | none => isTrue (by simp [Blunt])
  | some c => decidable_of_iff (c ≠ '\\' ∧ c ≠ '*') (by simp [Blunt])

/-- Neither an escape nor the end of a comment has begun. -/
def calm : Cover → Bool
  | .escape | .singleEscape | .doubleEscape | .star => false
  | _ => true

theorem calm_next (cover : Cover) {c : Char} (hc : c ≠ '\\' ∧ c ≠ '*') :
    calm (cover.next statementDialect c) = true := by
  have hexposed : calm (Cover.afterExposed statementDialect c) = true := by
    unfold Cover.afterExposed
    simp only [hc.1, if_false]
    split
    · rfl
    · split
      · rfl
      · split <;> rfl
  have hcovered (quote : Char) (inside behind : Cover) (hinside : calm inside = true) :
      calm (Cover.afterCovered statementDialect quote inside behind c) = true := by
    unfold Cover.afterCovered
    simp only [hc.1, if_false]
    split
    · rfl
    · exact hinside
  cases cover with
  | plain => exact hexposed
  | slash =>
      rw [Cover.next, if_neg hc.2]
      exact hexposed
  | escape => rfl
  | single => exact hcovered _ _ _ rfl
  | singleEscape => rfl
  | double => exact hcovered _ _ _ rfl
  | doubleEscape => rfl
  | comment =>
      rw [Cover.next, if_neg hc.2]
      rfl
  | star =>
      rw [Cover.next, if_neg hc.2]
      split <;> rfl

/-- The state in which a slash before has been forgotten. -/
def settle (n : Nesting) : Nesting :=
  { n with cover := if n.cover = .slash then .plain else n.cover }

theorem settle_settle (n : Nesting) : settle (settle n) = settle n := by
  obtain ⟨cover, depth⟩ := n
  cases cover <;> rfl

theorem calm_settle {n : Nesting} (h : calm n.cover = true) : calm (settle n).cover = true := by
  obtain ⟨cover, depth⟩ := n
  cases cover with
  | slash => rfl
  | _ => exact h

theorem statementScan_scopeChar {n : Nesting} {c : Char} (hn : calm n.cover = true)
    (hc : isScopeChar c = true) :
    statementScan.stops n c = false ∧ statementScan.next n c = settle n := by
  have hsigns := not_mem_statementSigns hc
  simp only [statementSigns, List.mem_cons, List.not_mem_nil, or_false, not_or] at hsigns
  obtain ⟨cover, depth⟩ := n
  constructor
  · simp [statementScan, hsigns]
  · cases cover with
    | escape => exact absurd hn (by simp [calm])
    | singleEscape => exact absurd hn (by simp [calm])
    | doubleEscape => exact absurd hn (by simp [calm])
    | star => exact absurd hn (by simp [calm])
    | _ =>
        simp [statementScan, Nesting.next, settle, Cover.next, Cover.exposes, Cover.afterExposed,
          Cover.afterCovered, isNewline, hsigns]

theorem statementScan_word {w : Text} {n : Nesting} (hn : calm n.cover = true)
    (hw : w.all isScopeChar = true) (hne : w ≠ []) :
    statementScan.Passes n w ∧ statementScan.after n w = settle n := by
  induction w generalizing n with
  | nil => exact absurd rfl hne
  | cons c r ih =>
      rw [List.all_cons, Bool.and_eq_true] at hw
      obtain ⟨hstop, hnext⟩ := statementScan_scopeChar hn hw.1
      rw [Scan.passes_cons, Scan.after_cons, hnext]
      by_cases hr : r = []
      · subst hr
        exact ⟨⟨hstop, rfl⟩, rfl⟩
      · obtain ⟨hpass, hafter⟩ := ih (calm_settle hn) hw.2 hr
        exact ⟨⟨hstop, hpass⟩, hafter.trans (settle_settle n)⟩

/-- A slash before matters to a star only. -/
theorem cut_settle {n : Nesting} {t : Text} (ht : ∀ c ∈ t.head?, c ≠ '*') :
    statementScan.cut (settle n) t = statementScan.cut n t := by
  cases t with
  | nil => rfl
  | cons c r =>
      have hc : c ≠ '*' := ht c rfl
      have hstops : statementScan.stops (settle n) c = statementScan.stops n c := by
        obtain ⟨cover, depth⟩ := n
        cases cover <;> rfl
      have hnext : statementScan.next (settle n) c = statementScan.next n c := by
        obtain ⟨cover, depth⟩ := n
        cases cover with
        | slash => simp [statementScan, Nesting.next, settle, Cover.next, Cover.exposes, hc]
        | _ => rfl
      rw [Scan.cut, Scan.cut, hstops, hnext]

/-- The second text is the first one with the word `w` put in at some places before `tail`; the
character before both is `last`. -/
inductive Padded (w tail : Text) : Option Char → Text → Text → Prop
  | tail {last : Option Char} : Padded w tail last tail tail
  | char {last : Option Char} {c : Char} {r r' : Text} : Padded w tail (some c) r r' →
      Padded w tail last (c :: r) (c :: r')
  | word {last : Option Char} {r r' : Text} : Blunt last → (∀ c ∈ r'.head?, c ≠ '*') →
      Padded w tail last r r' → Padded w tail last r (w ++ r')

namespace Padded
variable {w tail : Text} {last : Option Char} {t t' : Text}

theorem length_tail_le (h : Padded w tail last t t') : tail.length ≤ t.length := by
  induction h with
  | tail => exact Nat.le_refl _
  | char _ ih =>
      rw [List.length_cons]
      omega
  | word _ _ _ ih => exact ih

/-- Text in front is kept. -/
theorem append_left (u : Text) (h : Padded w tail (u.getLast?.or last) t t') :
    Padded w tail last (u ++ t) (u ++ t') := by
  induction u generalizing last with
  | nil => exact h
  | cons c u ih =>
      refine .char (ih ?_)
      cases u with
      | nil => exact h
      | cons d u =>
          have hlast := List.getLast?_eq_some_getLast (List.cons_ne_nil d u)
          rw [List.getLast?_cons_cons, hlast, Option.some_or] at h
          rwa [hlast, Option.some_or]

/-- A statement that does not end before `tail` ends where it ended before. -/
theorem cut_snd (hw : w.all isScopeChar = true) (hne : w ≠ []) (h : Padded w tail last t t')
    {n : Nesting} (hn : calm n.cover = true ∨ ¬Blunt last)
    (hlength : (statementScan.cut n t).2.length ≤ tail.length) :
    (statementScan.cut n t').2 = (statementScan.cut n t).2 := by
  induction h generalizing n with
  | tail => rfl
  | @char last c r r' h ih =>
      have hle := h.length_tail_le
      cases hstop : statementScan.stops n c with
      | true =>
          rw [Scan.cut, if_pos hstop, List.length_cons] at hlength
          omega
      | false =>
          rw [Scan.cut, if_neg (by simp [hstop])] at hlength ⊢
          rw [Scan.cut, if_neg (by simp [hstop])]
          refine ih ?_ hlength
          by_cases hc : c ≠ '\\' ∧ c ≠ '*'
          · exact .inl (calm_next n.cover hc)
          · exact .inr fun hblunt => hc (hblunt c rfl)
  | word hblunt hhead _ ih =>
      have hcalm := hn.resolve_right (not_not_intro hblunt)
      obtain ⟨hpass, hafter⟩ := statementScan_word hcalm hw hne
      rw [Scan.cut_append_of_passes hpass, hafter, cut_settle hhead]
      exact ih (.inl hcalm) hlength

end Padded

/-- The second text is the first one with the word `w` put in where it does no harm, whatever stands
around them; both start alike. -/
structure Lengthened (w v v' : Text) : Prop where
  head : v'.head? = v.head?
  padded : ∀ (last : Option Char) (tail : Text), (∀ c ∈ tail.head?, c ≠ '*') →
    Padded w tail last (v ++ tail) (v' ++ tail)

theorem Lengthened.refl (w v : Text) : Lengthened w v v where
  head := rfl
  padded := fun _ _ _ => Padded.append_left v .tail

theorem Lengthened.head_append {w v v' : Text} (h : Lengthened w v v') (t : Text) :
    (v' ++ t).head? = (v ++ t).head? := by
  rw [List.head?_append, List.head?_append, h.head]

theorem Lengthened.append_left {w v v' : Text} (h : Lengthened w v v') (u : Text) :
    Lengthened w (u ++ v) (u ++ v') where
  head := by rw [List.head?_append, List.head?_append, h.head]
  padded := by
    intro last tail htail
    rw [List.append_assoc, List.append_assoc]
    exact Padded.append_left u (h.padded _ tail htail)

/-- One more word behind a text that ends in neither a backslash nor a star. -/
theorem Lengthened.word {w v v' u : Text} (h : Lengthened w v v') (hu : u ≠ [])
    (hblunt : Blunt u.getLast?) (hv : ∀ c ∈ v.head?, c ≠ '*') :
    Lengthened w (u ++ v) (u ++ (w ++ v')) where
  head := by
    obtain ⟨c, u, rfl⟩ := List.exists_cons_of_ne_nil hu
    rfl
  padded := by
    intro last tail htail
    simp only [List.append_assoc]
    refine Padded.append_left u (.word ?_ ?_ (h.padded _ tail htail))
    · rwa [List.getLast?_eq_some_getLast hu, Option.some_or, ← List.getLast?_eq_some_getLast hu]
    · rw [h.head_append, List.head?_append]
      intro c hc
      cases hhead : v.head? with
      | none =>
          rw [hhead, Option.none_or] at hc
          exact htail c hc
      | some d =>
          rw [hhead, Option.some_or] at hc
          exact hv c (hhead.trans hc)

theorem Lengthened.eq_nil {w v v' : Text} (h : Lengthened w v v') (hv : v' = []) : v = [] := by
  have hhead := h.head
  rw [hv] at hhead
  exact List.head?_eq_none_iff.1 hhead.symm

theorem isBlank_of_isScopeChar {c : Char} (h : isScopeChar c = true) : isBlank c = false := by
  have hrange : 45 ≤ c.toNat ∧ c.toNat ≤ 122 := by
    simp only [isScopeChar, isLetter, isDigit, Bool.or_eq_true, Bool.and_eq_true,
      decide_eq_true_eq, Char.le_def, UInt32.le_iff_toNat_le] at h
    rcases h with (((⟨hlow, hhigh⟩ | ⟨hlow, hhigh⟩) | ⟨hlow, hhigh⟩) | rfl) | rfl
    · exact ⟨Nat.le_trans (by decide) hlow, hhigh⟩
    · exact ⟨Nat.le_trans (by decide) hlow, Nat.le_trans hhigh (by decide)⟩
    · exact ⟨Nat.le_trans (by decide) hlow, Nat.le_trans hhigh (by decide)⟩
    · decide
    · decide
  simp only [isBlank, Bool.or_eq_false_iff, Bool.and_eq_false_iff, decide_eq_false_iff_not]
  omega

section
variable {w t t' : Text} {last : Option Char} (hw : w.all isScopeChar = true) (hne : w ≠ [])
include hw hne

theorem Padded.getLast? (h : Padded w [] last t t') :
    ∀ c ∈ t'.getLast?, c ∈ t.getLast? ∨ isScopeChar c = true := by
  induction h with
  | tail => simp
  | @char last c r r' h ih =>
      intro d hd
      cases r' with
      | nil =>
          have hr : r = [] := by
            generalize he : ([] : Text) = u at h
            cases h with
            | tail => rfl
            | char => exact absurd he (by simp)
            | word => exact absurd (List.append_eq_nil_iff.1 he.symm).1 hne
          rw [hr]
          exact .inl hd
      | cons e r' =>
          rw [List.getLast?_cons_cons] at hd
          rcases ih d hd with hmem | hchar
          · refine .inl ?_
            rw [List.getLast?_cons, Option.mem_def.1 hmem]
            rfl
          · exact .inr hchar
  | @word last r r' _ _ _ ih =>
      intro d hd
      rw [List.getLast?_append] at hd
      cases hr : r'.getLast? with
      | some e =>
          rw [hr] at hd
          exact ih d (hr.trans hd)
      | none =>
          rw [hr, Option.none_or] at hd
          exact .inr (List.all_eq_true.1 hw d (List.mem_of_getLast? hd))

theorem Lengthened.trimEnd {v v' : Text} (h : Lengthened w v v') (u : Text)
    (hv : trimEnd (u ++ v) = u ++ v) : Text.trimEnd (u ++ v') = u ++ v' := by
  by_cases hnil : v' = []
  · rw [h.eq_nil hnil] at hv
    rw [hnil]
    exact hv
  · apply trimEnd_append u hnil
    have hpadded := h.padded none [] (by simp)
    rw [List.append_nil, List.append_nil] at hpadded
    rw [trimEnd_eq_self_iff] at hv ⊢
    intro c hc
    rcases Padded.getLast? hw hne hpadded c hc with hmem | hchar
    · apply hv
      rw [List.getLast?_append, Option.mem_def.1 hmem]
      rfl
    · exact isBlank_of_isScopeChar hchar

theorem Lengthened.trimmed {v v' : Text} (h : Lengthened w v v') (hv : Trimmed v) :
    Trimmed v' := by
  refine ⟨?_, h.trimEnd hw hne [] hv.2⟩
  rw [trimStart_eq_self_iff, h.head, ← trimStart_eq_self_iff]
  exact hv.1

end

/-! ### Statements with words put in -/

section
variable {w : Text} (hw : w.all isScopeChar = true) (hne : w ≠ [])
include hw hne

theorem cutStatement_lengthened {u v v' blanks tail : Text} (h : Lengthened w v v')
    (hblanks : blanks.all isBlank = true)
    (hcut : cutStatement (u ++ v ++ blanks ++ tail) = (u ++ v ++ blanks, tail)) :
    cutStatement (u ++ v' ++ blanks ++ tail) = (u ++ v' ++ blanks, tail) := by
  have hhead : ∀ c ∈ (blanks ++ tail).head?, c ≠ '*' := by
    intro c hc
    cases blanks with
    | nil =>
        obtain ⟨r, rfl⟩ := List.head?_eq_some_iff.1 hc
        rcases ends_of_cutStatement (congrArg Prod.snd hcut) with rfl | rfl | rfl <;> decide
    | cons b r =>
        obtain rfl : b = c := Option.some.inj hc
        exact ne_of_isBlank (List.all_eq_true.1 hblanks b (by simp)) (by decide)
  have hpadded : Padded w (blanks ++ tail) none (u ++ v ++ blanks ++ tail)
      (u ++ v' ++ blanks ++ tail) := by
    simp only [List.append_assoc]
    exact Padded.append_left u (h.padded _ _ hhead)
  have hsnd : (cutStatement (u ++ v' ++ blanks ++ tail)).2 = tail := by
    refine (hpadded.cut_snd hw hne (.inl rfl) ?_).trans (congrArg Prod.snd hcut)
    rw [show statementScan.cut {} (u ++ v ++ blanks ++ tail) = _ from hcut, List.length_append]
    exact Nat.le_add_left _ _
  have happ := cutStatement_append (u ++ v' ++ blanks ++ tail)
  rw [hsnd] at happ
  exact Prod.ext (List.append_cancel_right happ) hsnd

theorem IsPrelude.lengthened {name afterName params params' blanks tail : Text}
    (h : IsPrelude name afterName params blanks tail) (hp : Lengthened w params params') :
    IsPrelude name afterName params' blanks tail where
  allName := h.allName
  nameEnds := by
    have hends := h.nameEnds
    simp only [List.append_assoc, List.head?_append, hp.head] at hends ⊢
    exact hends
  allBlankBefore := h.allBlankBefore
  trimmed := hp.trimmed hw hne h.trimmed
  bare := fun hnil => h.bare (hp.eq_nil hnil)
  allBlank := h.allBlank
  cut := cutStatement_lengthened hw hne hp h.allBlank h.cut

/-- A value behind a colon may be lengthened, unless it is that of a custom property. -/
theorem IsStatement.lengthened {left right v v' blanks tail : Text}
    (h : IsStatement (left ++ ':' :: right ++ v) blanks tail) (hv : Lengthened w v v')
    (hcustom : isCustomProperty (left ++ [':']) = false) :
    IsStatement (left ++ ':' :: right ++ v') blanks tail where
  starts := by
    have hstarts := h.starts
    simp only [List.append_assoc, List.cons_append] at hstarts ⊢
    exact hstarts.congr (.inl rfl) _
  trimmed := hv.trimEnd hw hne _ h.trimmed
  allBlank := h.allBlank
  cut := by
    have hplain (u : Text) : cutAny (left ++ ':' :: right ++ u) =
        cutStatement (left ++ ':' :: right ++ u) := by
      have hcongr := isCustomProperty_congr (.inl rfl) left [] (right ++ u)
      rw [hcustom] at hcongr
      rw [cutAny, if_neg]
      simp [← hcongr]
    have hcut := h.cut
    rw [List.append_assoc _ v, List.append_assoc _ _ tail, hplain] at hcut
    rw [List.append_assoc _ v', List.append_assoc _ _ tail, hplain]
    simp only [← List.append_assoc] at hcut ⊢
    exact cutStatement_lengthened hw hne hv h.allBlank hcut

end

/-- A declaration is taken apart at a colon, which nothing behind it has a say in. -/
theorem splitDeclaration?_eq_some_iff {t prop between value : Text} :
    splitDeclaration? t = some (prop, between, value) ↔
      ∃ left lead, cutAtTop colonDialect ':' t = (left, ':' :: (lead ++ value)) ∧
        prop = trimEnd left ∧ between = trailingBlanks left ++ ':' :: lead ∧
        lead.all isBlank = true ∧ trimStart value = value := by
  constructor
  · intro h
    unfold splitDeclaration? at h
    split at h
    · exact absurd h (by simp)
    · next left c right hcut =>
      obtain rfl : c = ':' := cutAtTop_snd_head (congrArg Prod.snd hcut)
      obtain ⟨rfl, rfl, rfl⟩ : _ ∧ _ ∧ _ := by simpa using h
      have htrimmed := trimStart_trimStart right
      refine ⟨left, leadingBlanks right, ?_, rfl, rfl, List.all_takeWhile, htrimmed⟩
      rw [leadingBlanks_append_trimStart, hcut]
  · rintro ⟨left, lead, hcut, rfl, rfl, hlead, hvalue⟩
    rw [splitDeclaration?, hcut]
    simp only [leadingBlanks_blanks_append hlead hvalue, trimStart_blanks_append hlead hvalue]

theorem trimEnd_hyphens (r : Text) : ∃ u, trimEnd ('-' :: '-' :: r) = '-' :: '-' :: u := by
  have happ := trimEnd_append_trailingBlanks ('-' :: '-' :: r)
  have hall := List.all_eq_true.1 (all_trailingBlanks ('-' :: '-' :: r))
  generalize trimEnd ('-' :: '-' :: r) = t at happ
  generalize trailingBlanks ('-' :: '-' :: r) = blanks at happ hall
  match t with
  | [] =>
      rw [List.nil_append] at happ
      rw [happ] at hall
      exact absurd (hall '-' (by simp)) (by decide)
  | [c] =>
      obtain ⟨rfl, rfl⟩ := List.cons.inj happ
      exact absurd (hall '-' (by simp)) (by decide)
  | c :: d :: u =>
      obtain ⟨rfl, hd⟩ := List.cons.inj happ
      obtain ⟨rfl, -⟩ := List.cons.inj hd
      exact ⟨u, rfl⟩

/-- An animation is no custom property. -/
theorem isCustomProperty_of_plainProp {d : Declaration} {left : Text}
    (hprop : d.prop = trimEnd left) (h : d.plainProp.head? ≠ some '-') :
    isCustomProperty (left ++ [':']) = false := by
  rw [← Bool.not_eq_true]
  intro hcustom
  obtain ⟨r, hr, -⟩ := isCustomProperty_eq_true_iff.1 hcustom
  match left with
  | [] => exact absurd hr (by simp)
  | [c] => exact absurd hr (by simp)
  | c :: e :: left =>
      obtain ⟨rfl, htail⟩ := List.cons.inj hr
      obtain ⟨rfl, -⟩ := List.cons.inj htail
      obtain ⟨u, hu⟩ := trimEnd_hyphens left
      apply h
      rw [Declaration.plainProp, hprop, hu]
      have hlower : lower ('-' :: '-' :: u) = '-' :: '-' :: lower u := rfl
      rw [hlower]
      simp

end StyleScope.Stylesheet
