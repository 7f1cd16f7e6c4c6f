import StyleScope.Text.Comment
import StyleScope.Text.Cover
import StyleScope.Text.Quote

/-! # Passing over text

A scan passes over a text when it stops nowhere in it. Passing over two texts in a row is passing
over the first and then, in the state reached, over the second (`Scan.passes_append`), and a cut is
known by the text it passes and the stop behind it (`Scan.cut_eq_cons_iff`). From this follows what
brackets enclose, what a comment and what a string take off a text, whatever follows them. A text at
which a scan rests can be put in anywhere the scan is in that state (`Scan.Rests`).
-/
namespace StyleScope.Text

namespace Scan
variable {σ : Type} {m : Scan σ} {s : σ} {u v a r : Text} {c : Char}

/-- The scan stops nowhere in the text. -/
def Passes (m : Scan σ) (s : σ) (t : Text) : Prop := m.cut s t = (t, [])

instance : Decidable (m.Passes s u) := inferInstanceAs (Decidable (m.cut s u = (u, [])))

@[simp] theorem passes_nil : m.Passes s [] := rfl

@[simp] theorem passes_cons :
    m.Passes s (c :: r) ↔ m.stops s c = false ∧ m.Passes (m.next s c) r := by
  unfold Passes
  rw [cut]
  cases hc : m.stops s c with
  | true => simp
  | false => simp [Prod.ext_iff]

@[simp] theorem after_nil : m.after s [] = s := rfl

@[simp] theorem after_cons : m.after s (c :: r) = m.after (m.next s c) r := rfl

theorem after_append : m.after s (u ++ v) = m.after (m.after s u) v :=
  List.foldl_append

theorem passes_append :
    m.Passes s (u ++ v) ↔ m.Passes s u ∧ m.Passes (m.after s u) v := by
  induction u generalizing s with
  | nil => simp
  | cons d u ih => simp [ih, and_assoc]

/-- A scan has passed over what it cuts off. -/
theorem passes_cut (m : Scan σ) (s : σ) (t : Text) : m.Passes s (m.cut s t).1 := by
  induction t generalizing s with
  | nil => rfl
  | cons c r ih =>
      rw [cut]
      cases hc : m.stops s c with
      | true => exact passes_nil
      | false => exact passes_cons.2 ⟨hc, ih _⟩

/-- A text that is passed over stays on the left of the cut. -/
theorem cut_append_of_passes (h : m.Passes s u) :
    m.cut s (u ++ v) = (u ++ (m.cut (m.after s u) v).1, (m.cut (m.after s u) v).2) := by
  induction u generalizing s with
  | nil => rfl
  | cons c u ih =>
      obtain ⟨hc, hu⟩ := passes_cons.1 h
      rw [List.cons_append, cut, if_neg (by simp [hc]), ih hu]
      rfl

theorem cut_eq_nil_iff : m.cut s u = (a, []) ↔ u = a ∧ m.Passes s a := by
  constructor
  · intro h
    have happ := m.cut_append s u
    rw [h, List.append_nil] at happ
    obtain rfl : a = u := happ
    exact ⟨rfl, h⟩
  · rintro ⟨rfl, h⟩
    exact h

theorem cut_eq_cons_iff :
    m.cut s u = (a, c :: r) ↔
      u = a ++ c :: r ∧ m.Passes s a ∧ m.stops (m.after s a) c = true := by
  constructor
  · intro h
    have happ := m.cut_append s u
    have hpass := m.passes_cut s u
    have hstop := m.cut_stops s u (c := c) (r := r) (by rw [h])
    rw [h] at happ hpass hstop
    exact ⟨happ.symm, hpass, hstop⟩
  · rintro ⟨rfl, hpass, hstop⟩
    rw [cut_append_of_passes hpass, cut, if_pos hstop, List.append_nil]

/-- A scan does not look behind the character it stops at. -/
theorem cut_congr (h : m.cut s (a ++ c :: u) = (a, c :: u)) (v : Text) :
    m.cut s (a ++ c :: v) = (a, c :: v) := by
  obtain ⟨-, hpass, hstop⟩ := cut_eq_cons_iff.1 h
  exact cut_eq_cons_iff.2 ⟨rfl, hpass, hstop⟩

/-- The scan stops nowhere in the text and leaves it as it entered it. -/
def Rests (m : Scan σ) (s : σ) (t : Text) : Prop := m.Passes s t ∧ m.after s t = s

instance [DecidableEq σ] : Decidable (m.Rests s u) := inferInstanceAs (Decidable (_ ∧ _))

theorem rests_nil : m.Rests s [] := ⟨rfl, rfl⟩

theorem Rests.append (hu : m.Rests s u) (hv : m.Rests s v) : m.Rests s (u ++ v) := by
  rw [Rests, passes_append, after_append, hu.2]
  exact ⟨⟨hu.1, hv.1⟩, hv.2⟩

theorem Rests.of_append (hu : m.Rests s u) (h : m.Rests s (u ++ v)) : m.Rests s v := by
  rw [Rests, passes_append, after_append, hu.2] at h
  exact ⟨h.1.2, h.2⟩

theorem rests_of_forall_singleton (h : ∀ c ∈ u, m.Rests s [c]) : m.Rests s u := by
  induction u with
  | nil => exact rests_nil
  | cons c r ih => exact (h c (by simp)).append (ih fun d hd => h d (by simp [hd]))

end Scan

/-- The characters behind which the cover or the depth may be another one. -/
def nestingSigns : List Char := ['\\', '\'', '"', '/', '(', ')', '[', ']']

theorem Nesting.next_of_not_mem (k : Dialect) {c : Char} (h : c ∉ nestingSigns) (depth : Nat) :
    Nesting.next k ⟨.plain, depth⟩ c = ⟨.plain, depth⟩ := by
  simp only [nestingSigns, List.mem_cons, List.not_mem_nil, or_false, not_or] at h
  simp [Nesting.next, Cover.next, Cover.exposes, Cover.afterExposed, h]

theorem Scan.rests_of_forall {m : Scan Nesting} {k : Dialect} (hnext : m.next = Nesting.next k)
    {depth : Nat} {t : Text}
    (h : ∀ c ∈ t, c ∉ nestingSigns ∧ m.stops ⟨.plain, depth⟩ c = false) :
    m.Rests ⟨.plain, depth⟩ t := by
  refine rests_of_forall_singleton fun c hc => ?_
  obtain ⟨hsign, hstop⟩ := h c hc
  rw [Rests, passes_cons, after_cons, hnext, Nesting.next_of_not_mem k hsign]
  exact ⟨⟨hstop, rfl⟩, rfl⟩

theorem any_head?_dropWhile (p : Char → Bool) (t : Text) : (t.dropWhile p).head?.any p = false := by
  have h := List.head?_dropWhile_not p t
  cases hd : (t.dropWhile p).head? with
  | none => rfl
  | some d => simpa [hd] using h

theorem takeWhile_append_of_all {p : Char → Bool} {u t : Text} (hu : u.all p = true)
    (ht : t.head?.any p = false) : (u ++ t).takeWhile p = u := by
  rw [List.takeWhile_append_of_pos (List.all_eq_true.1 hu)]
  cases t with
  | nil => simp
  | cons d r =>
      have hd : p d = false := by simpa using ht
      simp [hd]

theorem dropWhile_append_of_all {p : Char → Bool} {u t : Text} (hu : u.all p = true)
    (ht : t.head?.any p = false) : (u ++ t).dropWhile p = t := by
  have h := List.takeWhile_append_dropWhile (p := p) (l := u ++ t)
  rw [takeWhile_append_of_all hu ht] at h
  exact List.append_cancel_left h

theorem forall_head?_dropWhile (p : Char → Bool) (t : Text) :
    ∀ c ∈ (t.dropWhile p).head?, p c = false := by
  intro c hc
  simpa [Option.mem_def.1 hc] using any_head?_dropWhile p t

theorem dropWhile_append_cons {p : Char → Bool} {c : Char} (hc : p c = false) (u t : Text) :
    (u ++ c :: t).dropWhile p = u.dropWhile p ++ c :: t := by
  rw [List.dropWhile_append]
  split
  · next hempty => simp [List.isEmpty_iff.1 hempty, hc]
  · rfl

/-- The text lies between two brackets: the closing one behind it ends it, nothing in it does. -/
def Encloses (opening closing : Char) (inside : Text) : Prop :=
  (closingScan opening closing).Passes {} inside ∧
    ((closingScan opening closing).after {} inside).isTop = true

instance (opening closing : Char) (inside : Text) : Decidable (Encloses opening closing inside) :=
  inferInstanceAs (Decidable (_ ∧ _))

theorem splitClosing?_eq_some_iff {opening closing : Char} {t inside rest : Text} :
    splitClosing? opening closing t = some (inside, rest) ↔
      t = inside ++ closing :: rest ∧ Encloses opening closing inside := by
  have hstops (n : Nesting) (c : Char) :
      (closingScan opening closing).stops n c = true ↔ n.isTop = true ∧ c = closing := by
    simp [closingScan]
  rw [splitClosing?_eq_cut]
  constructor
  · intro h
    split at h
    · exact absurd h (by simp)
    · next a c r e =>
      obtain ⟨rfl, rfl⟩ : a = inside ∧ r = rest := by simpa using h
      obtain ⟨ht, hp, hc⟩ := Scan.cut_eq_cons_iff.1 e
      obtain ⟨htop, rfl⟩ := (hstops _ _).1 hc
      exact ⟨ht, hp, htop⟩
  · rintro ⟨ht, hp, htop⟩
    rw [Scan.cut_eq_cons_iff.2 ⟨ht, hp, (hstops _ _).2 ⟨htop, rfl⟩⟩]

theorem splitClosing?_eq_none_iff {opening closing : Char} {t : Text} :
    splitClosing? opening closing t = none ↔ (closingScan opening closing).Passes {} t := by
  rw [splitClosing?_eq_cut]
  constructor
  · intro h
    split at h
    · next a e =>
      obtain ⟨rfl, hp⟩ := Scan.cut_eq_nil_iff.1 e
      exact hp
    · exact absurd h (by simp)
  · intro h
    rw [h]

theorem startsComment_eq_true_iff {t : Text} :
    startsComment t = true ↔ ∃ r, t = '/' :: '*' :: r := by
  unfold startsComment
  split
  · next r => simp
  · next hne => simpa using hne

theorem comment?_eq_none_iff {t : Text} : comment? t = none ↔ startsComment t = false := by
  unfold comment? startsComment
  split
  · simp
  · simp

/-- A closed comment, read behind its opening. -/
theorem splitComment_closed {body rest : Text} (hp : commentScan.Passes false body)
    (hstar : commentScan.after false body = true) :
    splitComment (body ++ '/' :: rest) = (body ++ ['/'], rest) := by
  have hcut : commentScan.cut false (body ++ '/' :: rest) = (body, '/' :: rest) :=
    Scan.cut_eq_cons_iff.2 ⟨rfl, hp, by rw [hstar]; rfl⟩
  rw [splitComment, Scan.through, hcut]

/-- A comment that ends with the text, read behind its opening. -/
theorem splitComment_open {body : Text} (hp : commentScan.Passes false body) :
    splitComment body = (body, []) := by
  rw [splitComment, Scan.through, hp]

/-- What is read behind the opening of a comment: up to a star and a slash, or all there is. -/
theorem splitComment_cases (t : Text) :
    (∃ body rest, t = body ++ '/' :: rest ∧ commentScan.Passes false body ∧
        commentScan.after false body = true ∧ splitComment t = (body ++ ['/'], rest)) ∨
      (commentScan.Passes false t ∧ splitComment t = (t, [])) := by
  rcases h : commentScan.cut false t with ⟨a, _ | ⟨c, r⟩⟩
  · obtain ⟨rfl, hp⟩ := Scan.cut_eq_nil_iff.1 h
    exact .inr ⟨hp, splitComment_open hp⟩
  · obtain ⟨rfl, hp, hc⟩ := Scan.cut_eq_cons_iff.1 h
    obtain ⟨hstar, rfl⟩ : commentScan.after false a = true ∧ c = '/' := by
      simpa [commentScan] using hc
    exact .inl ⟨a, r, rfl, hp, hstar, splitComment_closed hp hstar⟩

section
variable {line : Bool} {quote : Char} {body rest : Text}

/-- A closed string, read behind its opening quote. -/
theorem splitString_closed (hp : (stringScan line quote).Passes false body)
    (hend : (stringScan line quote).after false body = false) :
    splitString line quote (body ++ quote :: rest) = (body ++ [quote], rest) := by
  have hcut : (stringScan line quote).cut false (body ++ quote :: rest) = (body, quote :: rest) := by
    rw [Scan.cut_eq_cons_iff, hend]
    exact ⟨rfl, hp, by simp [stringScan]⟩
  rw [splitString, hcut]
  simp

/-- A string that ends with its line, read behind its opening quote. -/
theorem splitString_line {c : Char} (hp : (stringScan true quote).Passes false body)
    (hend : (stringScan true quote).after false body = false) (hline : isNewline c = true)
    (hc : c ≠ quote) :
    splitString true quote (body ++ c :: rest) = (body, c :: rest) := by
  have hcut : (stringScan true quote).cut false (body ++ c :: rest) = (body, c :: rest) := by
    rw [Scan.cut_eq_cons_iff, hend]
    exact ⟨rfl, hp, by simp [stringScan, hline]⟩
  rw [splitString, hcut]
  simp [hc]

/-- A string that ends with the text, read behind its opening quote. -/
theorem splitString_open (hp : (stringScan line quote).Passes false body) :
    splitString line quote body = (body, []) := by
  rw [splitString, hp]

/-- What is read behind an opening quote: up to the same quote, up to the end of the line, or all
there is. -/
theorem splitString_cases (quote : Char) (t : Text) :
    ∃ body, (stringScan true quote).Passes false body ∧
      ((∃ rest, t = body ++ quote :: rest ∧ (stringScan true quote).after false body = false ∧
          splitString true quote t = (body ++ [quote], rest)) ∨
        (∃ c rest, t = body ++ c :: rest ∧ (stringScan true quote).after false body = false ∧
          isNewline c = true ∧ c ≠ quote ∧ splitString true quote t = (body, c :: rest)) ∨
        (t = body ∧ splitString true quote t = (body, []))) := by
  rcases h : (stringScan true quote).cut false t with ⟨a, _ | ⟨c, r⟩⟩
  · obtain ⟨rfl, hp⟩ := Scan.cut_eq_nil_iff.1 h
    exact ⟨t, hp, .inr (.inr ⟨rfl, splitString_open hp⟩)⟩
  · obtain ⟨rfl, hp, hc⟩ := Scan.cut_eq_cons_iff.1 h
    obtain ⟨hend, hstop⟩ :
        (stringScan true quote).after false a = false ∧ (c = quote ∨ isNewline c = true) := by
      simpa [stringScan] using hc
    refine ⟨a, hp, ?_⟩
    by_cases hq : c = quote
    · subst hq
      exact .inl ⟨r, rfl, hend, splitString_closed hp hend⟩
    · have hline := hstop.resolve_left hq
      exact .inr (.inl ⟨c, r, rfl, hend, hline, hq, splitString_line hp hend hline hq⟩)

end
end StyleScope.Text
