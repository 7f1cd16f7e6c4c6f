/-! # Computations that can fail

A sequence of steps succeeds if each of them does, and fails with the error of the first that
fails. Steps that need not end are over `Option`: a sequence of them ends if each of them does.
-/
namespace StyleScope.Failing
variable {ε α β : Type} {f : α → Except ε β}

instance decidableEqExcept [DecidableEq ε] [DecidableEq α] : DecidableEq (Except ε α)
  | .error e, .error e' => decidable_of_iff (e = e') (by simp)
  | .error _, .ok _ => isFalse (by simp)
  | .ok _, .error _ => isFalse (by simp)
  | .ok a, .ok a' => decidable_of_iff (a = a') (by simp)

theorem bind_eq_ok_iff {x : Except ε α} {b : β} :
    x >>= f = .ok b ↔ ∃ a, x = .ok a ∧ f a = .ok b := by
  cases x with
  | error e => simp [bind, Except.bind]
  | ok a => simp [bind, Except.bind]

section
variable {ε' : Type} {g : ε → ε'} {x : Except ε α}

theorem mapError_eq_ok_iff {a : α} : x.mapError g = .ok a ↔ x = .ok a := by
  cases x with
  | error e => exact iff_of_false (by rintro ⟨⟩) (by rintro ⟨⟩)
  | ok b =>
      constructor
      · intro h
        rw [Except.ok.inj h]
      · rintro ⟨⟩
        rfl

end

section
variable {x : ExceptT ε Option α} {g : α → ExceptT ε Option β} {e : ε}

variable {y : Except ε α}

variable {tasks : List (ExceptT ε Option α)}

end

end StyleScope.Failing
