import Mathlib.Data.List.TakeWhile
import StyleScope.Basic

/-! # Blanks around a text

A text that is not blank is what is left when it is trimmed, with the blanks that were taken off on
either side of it (`leadingBlanks_append_trim`), and blanks put around a text do not outlive its
trimming (`trim_append_blanks`). What trimming takes off one side of a text is found again in front
of it or behind it (`leadingBlanks_blanks_append`, `trailingBlanks_append_blanks`).
-/
namespace StyleScope.Text

def Trimmed (t : Text) : Prop := trimStart t = t ∧ trimEnd t = t

theorem all_trailingBlanks (t : Text) : (trailingBlanks t).all isBlank = true := by
  rw [trailingBlanks, List.all_reverse]
  exact List.all_takeWhile

theorem leadingBlanks_trimEnd {m : Text} (h : isBlankText m = false) :
    leadingBlanks (trimEnd m) = leadingBlanks m := by
  have hsplit : (trimEnd m ++ trailingBlanks m).takeWhile isBlank = leadingBlanks m :=
    congrArg (List.takeWhile isBlank) (trimEnd_append_trailingBlanks m)
  rw [← hsplit, List.takeWhile_append, if_neg]
  · rfl
  · intro hlength
    have hself := (List.takeWhile_prefix isBlank (l := trimEnd m)).eq_of_length hlength
    have hall : isBlankText m = true := by
      rw [isBlankText, ← trimEnd_append_trailingBlanks m, List.all_append, all_trailingBlanks,
        ← hself, List.all_takeWhile]
      rfl
    exact absurd (h.symm.trans hall) (by simp)

theorem leadingBlanks_append_trim {m : Text} (h : isBlankText m = false) :
    leadingBlanks m ++ trim m ++ trailingBlanks m = m := by
  rw [← leadingBlanks_trimEnd h, trim, leadingBlanks_append_trimStart,
    trimEnd_append_trailingBlanks]

theorem trim_append_blanks {u v : Text} (t : Text) (hu : u.all isBlank = true)
    (hv : v.all isBlank = true) : trim (u ++ t ++ v) = trim t := by
  rw [List.all_eq_true] at hu hv
  have hend : trimEnd (u ++ t ++ v) = trimEnd (u ++ t) := by
    rw [trimEnd, trimEnd, List.reverse_append, List.dropWhile_append_of_pos (by simpa using hv)]
  have hstart : trimEnd (u ++ t) = if (trimEnd t).isEmpty then trimEnd u else u ++ trimEnd t := by
    rw [trimEnd, List.reverse_append, List.dropWhile_append, trimEnd, trimEnd, List.isEmpty_reverse]
    split
    · rfl
    · rw [List.reverse_append, List.reverse_reverse]
  have hempty : trimEnd u = [] := by
    have hdrop : (u.reverse ++ []).dropWhile isBlank = [] :=
      List.dropWhile_append_of_pos (by simpa using hu)
    rw [List.append_nil] at hdrop
    rw [trimEnd, hdrop]
    rfl
  rw [trim, trim, hend, hstart]
  split
  · next h =>
    rw [hempty, List.isEmpty_iff.1 h]
  · rw [trimStart, List.dropWhile_append_of_pos hu]
    rfl

theorem trim_of_isBlankText {m : Text} (h : isBlankText m = true) : trim m = [] := by
  have hnil := trim_append_blanks (v := []) [] h rfl
  rw [List.append_nil, List.append_nil] at hnil
  exact hnil

theorem trimEnd_eq_nil_iff (t : Text) : trimEnd t = [] ↔ ∀ c ∈ t, isBlank c = true := by
  rw [trimEnd, List.reverse_eq_nil_iff, List.dropWhile_eq_nil_iff]
  simp only [List.mem_reverse]

theorem trimStart_eq_self_iff (t : Text) :
    trimStart t = t ↔ ∀ c ∈ t.head?, isBlank c = false := by
  cases t with
  | nil => simp [trimStart]
  | cons c r =>
      rw [trimStart, List.dropWhile_cons]
      cases hc : isBlank c with
      | false => simp [hc]
      | true =>
          have hlength := (List.dropWhile_sublist isBlank (l := r)).length_le
          simp only [if_true, List.head?_cons, Option.mem_some_iff, forall_eq', hc,
            Bool.true_eq_false, iff_false]
          intro h
          rw [h, List.length_cons] at hlength
          omega

theorem trimEnd_eq_self_iff (t : Text) :
    trimEnd t = t ↔ ∀ c ∈ t.getLast?, isBlank c = false := by
  rw [← List.head?_reverse, ← trimStart_eq_self_iff, ← List.reverse_inj, trimEnd,
    List.reverse_reverse, trimStart]

theorem trimStart_trimStart (t : Text) : trimStart (trimStart t) = trimStart t := by
  rw [trimStart_eq_self_iff, trimStart]
  intro c hc
  simpa [Option.mem_def.1 hc] using List.head?_dropWhile_not isBlank t

theorem trimEnd_trimEnd (t : Text) : trimEnd (trimEnd t) = trimEnd t := by
  rw [trimEnd_eq_self_iff, trimEnd, List.getLast?_reverse]
  intro c hc
  simpa [Option.mem_def.1 hc] using List.head?_dropWhile_not isBlank t.reverse

theorem trimEnd_append {t : Text} (u : Text) (ht : t ≠ []) (h : trimEnd t = t) :
    trimEnd (u ++ t) = u ++ t := by
  rw [trimEnd_eq_self_iff] at h ⊢
  intro c hc
  apply h
  rwa [List.getLast?_append, List.getLast?_eq_some_getLast ht, Option.some_or,
    ← List.getLast?_eq_some_getLast ht] at hc

theorem trimmed_trim (t : Text) : Trimmed (trim t) := by
  refine ⟨trimStart_trimStart _, ?_⟩
  have hend := trimEnd_trimEnd t
  have hsplit := leadingBlanks_append_trimStart (trimEnd t)
  rw [trimEnd_eq_self_iff] at hend ⊢
  intro c hc
  apply hend
  rw [← hsplit, List.getLast?_append, show (trimStart (trimEnd t)).getLast? = some c from hc]
  rfl

/-- Trimming leaves nothing of a text of blanks only, and something of any other. -/
theorem trim_eq_nil_iff (t : Text) : trim t = [] ↔ isBlankText t = true := by
  refine ⟨fun h => ?_, trim_of_isBlankText⟩
  have hblank : ∀ c ∈ trimEnd t, isBlank c = true := List.dropWhile_eq_nil_iff.1 h
  have hnil : trimEnd (trimEnd t) = [] := (trimEnd_eq_nil_iff _).2 hblank
  rw [trimEnd_trimEnd] at hnil
  exact List.all_eq_true.2 ((trimEnd_eq_nil_iff t).1 hnil)

/-- A text of which trimming leaves nothing has nothing in front of its trailing blanks. -/
theorem leadingBlanks_of_trim_eq_nil {t : Text} (h : trim t = []) :
    leadingBlanks (trimEnd t) = [] := by
  have hblank := List.all_eq_true.1 ((trim_eq_nil_iff t).1 h)
  rw [(trimEnd_eq_nil_iff t).2 hblank]
  rfl

section
variable {t blanks : Text} (hblanks : blanks.all isBlank = true)
include hblanks

theorem trimEnd_append_of_all : trimEnd (t ++ blanks) = trimEnd t := by
  rw [trimEnd, List.reverse_append,
    List.dropWhile_append_of_pos (by simpa using List.all_eq_true.1 hblanks), trimEnd]

theorem trimEnd_append_blanks (h : trimEnd t = t) : trimEnd (t ++ blanks) = t :=
  (trimEnd_append_of_all hblanks).trans h

theorem trailingBlanks_append_blanks (h : trimEnd t = t) :
    trailingBlanks (t ++ blanks) = blanks := by
  have hsplit := trimEnd_append_trailingBlanks (t ++ blanks)
  rw [trimEnd_append_blanks hblanks h] at hsplit
  exact List.append_cancel_left hsplit

theorem trimStart_blanks_append (h : trimStart t = t) : trimStart (blanks ++ t) = t := by
  rw [trimStart, List.dropWhile_append_of_pos (List.all_eq_true.1 hblanks)]
  exact h

theorem leadingBlanks_blanks_append (h : trimStart t = t) :
    leadingBlanks (blanks ++ t) = blanks := by
  have hsplit := leadingBlanks_append_trimStart (blanks ++ t)
  rw [trimStart_blanks_append hblanks h] at hsplit
  exact List.append_cancel_right hsplit

end

end StyleScope.Text
