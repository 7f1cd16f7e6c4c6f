import StyleScope.Basic

/-! # Scans

A scan walks over a text with a state and stops in front of a character. It cuts the text in two,
what it has passed and what is left, and the two pieces always make up the text again
(`cut_append`). What is left is either empty or starts with a character at which the scan stops
(`cut_stops`).
-/
namespace StyleScope.Text

/-- How a scan moves over a character, and the characters it stops at. -/
structure Scan (σ : Type) where
  stops : σ → Char → Bool
  next : σ → Char → σ

namespace Scan
variable {σ : Type}

/-- What lies before the first stop, and the text from there on. -/
def cut (m : Scan σ) (s : σ) : Text → Text × Text
  | [] => ([], [])
  | c :: r =>
    if m.stops s c then ([], c :: r)
    else
      let p := m.cut (m.next s c) r
      (c :: p.1, p.2)

/-- Like `cut`, with the character of the stop on the left. -/
def through (m : Scan σ) (s : σ) (t : Text) : Text × Text :=
  match m.cut s t with
  | (a, []) => (a, [])
  | (a, c :: r) => (a ++ [c], r)

@[simp] theorem cut_append (m : Scan σ) (s : σ) (t : Text) :
    (m.cut s t).1 ++ (m.cut s t).2 = t := by
  induction t generalizing s with
  | nil => rfl
  | cons c r ih =>
    rw [cut]
    split
    · rfl
    · exact congrArg (c :: ·) (ih _)

@[simp] theorem through_append (m : Scan σ) (s : σ) (t : Text) :
    (m.through s t).1 ++ (m.through s t).2 = t := by
  have h := m.cut_append s t
  unfold through
  split
  · next a e => simpa [e] using h
  · next a c r e => simpa [e] using h

theorem length_cut_snd_le (m : Scan σ) (s : σ) (t : Text) :
    (m.cut s t).2.length ≤ t.length := by
  have h := congrArg List.length (m.cut_append s t)
  rw [List.length_append] at h
  omega

/-- The state in which a scan that never stopped has passed a text. -/
def after (m : Scan σ) (s : σ) (t : Text) : σ := t.foldl m.next s

/-- A scan that leaves something stops at the first character it leaves. -/
theorem cut_stops (m : Scan σ) (s : σ) (t : Text) {c : Char} {r : Text}
    (h : (m.cut s t).2 = c :: r) : m.stops (m.after s (m.cut s t).1) c = true := by
  induction t generalizing s with
  | nil => simp [cut] at h
  | cons d u ih =>
    rw [cut] at h ⊢
    split at h
    · next hd =>
      obtain ⟨rfl, rfl⟩ := List.cons.inj h
      simp [hd, after]
    · next hd =>
      simp only [hd]
      exact ih _ h

end Scan
end StyleScope.Text
