import StyleScope.Proofs.Text.Scans

/-! # Text between brackets that does not matter

The scan for a closing bracket covers what follows a backslash, in strings and outside. So whether
its next character stands behind a backslash is known from the text alone (`escapedAfter`), whatever
strings the scan takes itself to be in. A text is *inert* to a bracket when the scan passes over it
and comes out as it went in, in a string or not. Behind no backslash, an inert text may be taken out
without moving the bracket that closes (`passes_inert_iff`, `encloses_inert_iff`).
-/
namespace StyleScope.Text

/-- The character behind the text stands behind a backslash that is not itself escaped. -/
def escapedAfter (t : Text) : Bool := t.foldl (fun escaped c => !escaped && c = '\\') false

theorem escapedAfter_append {u : Text} (h : escapedAfter u = false) (v : Text) :
    escapedAfter (u ++ v) = escapedAfter v := by
  rw [escapedAfter, List.foldl_append, show u.foldl _ false = false from h]
  rfl

/-- Nothing before an ordinary character bears on what is behind it. -/
theorem escapedAfter_append_cons {c : Char} (hc : c ≠ '\\') (u v : Text) :
    escapedAfter (u ++ c :: v) = escapedAfter v := by
  rw [escapedAfter, List.foldl_append, List.foldl_cons, decide_eq_false hc, Bool.and_false]
  rfl

theorem escapedAfter_cons {c : Char} (hc : c ≠ '\\') (v : Text) :
    escapedAfter (c :: v) = escapedAfter v :=
  escapedAfter_append_cons hc [] v

theorem escapedAfter_concat {c : Char} (hc : c ≠ '\\') (u : Text) :
    escapedAfter (u ++ [c]) = false :=
  escapedAfter_append_cons hc u []

theorem escapedAfter_of_forall_ne {t : Text} (h : ∀ c ∈ t, c ≠ '\\') : escapedAfter t = false := by
  induction t with
  | nil => rfl
  | cons c r ih =>
      rw [escapedAfter_cons (h c (by simp))]
      exact ih fun d hd => h d (by simp [hd])

/-- The cover of a scan for brackets, which knows no comments, behind a backslash or not. -/
def Cover.Settled (escaped : Bool) : Cover → Prop
  | plain | single | double => escaped = false
  | escape | singleEscape | doubleEscape => escaped = true
  | slash | comment | star => False

theorem Cover.Settled.mem {k : Cover} (h : k.Settled false) : k ∈ [plain, single, double] := by
  cases k with
  | plain => simp
  | single => simp
  | double => simp
  | _ => exact absurd h (by simp [Cover.Settled])

theorem settled_afterExposed (c : Char) :
    (Cover.afterExposed bracketDialect c).Settled (c = '\\') := by
  by_cases hb : c = '\\'
  · subst hb
    rfl
  · by_cases hs : c = '\''
    · subst hs
      rfl
    · by_cases hd : c = '"'
      · subst hd
        rfl
      · simp [Cover.afterExposed, Cover.Settled, bracketDialect, hb, hs, hd]

theorem settled_afterCovered (quote c : Char) {inside behind : Cover}
    (hinside : inside.Settled false) (hbehind : behind.Settled true) :
    (Cover.afterCovered bracketDialect quote inside behind c).Settled (c = '\\') := by
  unfold Cover.afterCovered
  split
  · next hb => rwa [decide_eq_true hb]
  · next hb =>
    rw [decide_eq_false hb]
    split
    · rfl
    · exact hinside

theorem Cover.Settled.next {escaped : Bool} {k : Cover} (h : k.Settled escaped) (c : Char) :
    (k.next bracketDialect c).Settled (!escaped && c = '\\') := by
  cases k with
  | plain => exact h ▸ settled_afterExposed c
  | single => exact h ▸ settled_afterCovered '\'' c rfl rfl
  | double => exact h ▸ settled_afterCovered '"' c rfl rfl
  | escape => exact h ▸ rfl
  | singleEscape => exact h ▸ rfl
  | doubleEscape => exact h ▸ rfl
  | slash => exact absurd h id
  | comment => exact absurd h id
  | star => exact absurd h id

section
variable {opening closing : Char}

/-- The scan for a closing bracket stands behind a backslash just when the text says so. -/
theorem settled_after (opening closing : Char) (t : Text) :
    ((closingScan opening closing).after {} t).cover.Settled (escapedAfter t) := by
  have hfold : ∀ (s : Nesting) (escaped : Bool), s.cover.Settled escaped →
      ((closingScan opening closing).after s t).cover.Settled
        (t.foldl (fun escaped c => !escaped && c = '\\') escaped) := by
    induction t with
    | nil => exact fun s escaped h => h
    | cons c r ih => exact fun s escaped h => ih _ _ (h.next c)
  exact hfold {} false rfl

/-- Further brackets around a text that is passed over are passed over with it. -/
theorem passes_deeper {t : Text} {k : Cover} {depth : Nat}
    (h : (closingScan opening closing).Passes ⟨k, depth⟩ t) (extra : Nat) :
    (closingScan opening closing).Passes ⟨k, depth + extra⟩ t ∧
      (closingScan opening closing).after ⟨k, depth + extra⟩ t =
        ⟨((closingScan opening closing).after ⟨k, depth⟩ t).cover,
          ((closingScan opening closing).after ⟨k, depth⟩ t).depth + extra⟩ := by
  induction t generalizing k depth with
  | nil => exact ⟨rfl, rfl⟩
  | cons c r ih =>
      obtain ⟨hstop, hr⟩ := Scan.passes_cons.1 h
      have hopen : k.exposes = true → c = closing → depth ≠ 0 := by
        rintro hk rfl rfl
        simp [closingScan, Nesting.isTop, hk] at hstop
      have hstop' : (closingScan opening closing).stops ⟨k, depth + extra⟩ c = false := by
        refine Bool.eq_false_iff.2 fun hs => ?_
        obtain ⟨⟨hk, hdepth⟩, hc⟩ : (k.exposes = true ∧ depth + extra = 0) ∧ c = closing := by
          simpa [closingScan, Nesting.isTop] using hs
        exact hopen hk hc (by omega)
      have hnext : (closingScan opening closing).next ⟨k, depth + extra⟩ c =
          ⟨((closingScan opening closing).next ⟨k, depth⟩ c).cover,
            ((closingScan opening closing).next ⟨k, depth⟩ c).depth + extra⟩ := by
        simp only [closingScan, Nesting.mk.injEq, true_and]
        split
        · next hk =>
          split
          · omega
          · split
            · next hc =>
              have hdepth := hopen hk hc
              omega
            · rfl
        · rfl
      obtain ⟨hpass, hafter⟩ := ih hr
      rw [Scan.passes_cons, Scan.after_cons, Scan.after_cons, hnext]
      exact ⟨⟨hstop', hpass⟩, hafter⟩

/-- The scan passes over the text and comes out as it went in, in a string or not. -/
def Inert (opening closing : Char) (t : Text) : Prop :=
  ∀ k ∈ [Cover.plain, .single, .double],
    (closingScan opening closing).Passes ⟨k, 0⟩ t ∧
      (closingScan opening closing).after ⟨k, 0⟩ t = ⟨k, 0⟩

instance (t : Text) : Decidable (Inert opening closing t) :=
  inferInstanceAs (Decidable (∀ k ∈ [Cover.plain, .single, .double], _ ∧ _))

theorem inert_nil : Inert opening closing [] := fun _ _ => ⟨rfl, rfl⟩

theorem Inert.append {u v : Text} (hu : Inert opening closing u) (hv : Inert opening closing v) :
    Inert opening closing (u ++ v) := by
  intro k hk
  rw [Scan.passes_append, Scan.after_append, (hu k hk).2]
  exact ⟨⟨(hu k hk).1, (hv k hk).1⟩, (hv k hk).2⟩

variable {u t v : Text} (ht : Inert opening closing t) (hu : escapedAfter u = false)
include ht hu

theorem Inert.passes_after :
    (closingScan opening closing).Passes ((closingScan opening closing).after {} u) t ∧
      (closingScan opening closing).after ((closingScan opening closing).after {} u) t =
        (closingScan opening closing).after {} u := by
  have hcover := hu ▸ settled_after opening closing u
  generalize (closingScan opening closing).after {} u = s at hcover ⊢
  obtain ⟨k, depth⟩ := s
  obtain ⟨hpass, hafter⟩ := ht k hcover.mem
  have hdeeper := passes_deeper hpass depth
  rwa [hafter, Nat.zero_add] at hdeeper

/-- Behind no backslash, an inert text may be taken out. -/
theorem passes_inert_iff :
    (closingScan opening closing).Passes {} (u ++ t ++ v) ↔
      (closingScan opening closing).Passes {} (u ++ v) := by
  obtain ⟨hpass, hafter⟩ := ht.passes_after hu
  rw [Scan.passes_append, Scan.passes_append, Scan.passes_append, Scan.after_append, hafter]
  exact ⟨fun h => ⟨h.1.1, h.2⟩, fun h => ⟨⟨h.1, hpass⟩, h.2⟩⟩

theorem encloses_inert_iff :
    Encloses opening closing (u ++ t ++ v) ↔ Encloses opening closing (u ++ v) := by
  have hafter := (ht.passes_after hu).2
  rw [Encloses, Encloses, passes_inert_iff ht hu, Scan.after_append, Scan.after_append, hafter,
    Scan.after_append]

end

end StyleScope.Text
