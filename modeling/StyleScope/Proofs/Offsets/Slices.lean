import StyleScope.Proofs.Text.Scans
import StyleScope.Basic

/-! # Slices at byte offsets

A program that keeps byte offsets into a text slices it at them, and a slice that would start or end
within a character does not exist. Here such a slice is `none`, and so is everything computed from
it, so that a result of the form `some x` says that every slice on the way to it was in order.

An offset is known by the text that follows it: `dropBytes? t n = some r` says that `n` is a
boundary and that `r` comes behind it. From there an offset moves by the length of what is read
(`dropBytes?_add`), and slices between two such offsets are what was read (`slice?_of_dropBytes?`).
-/
namespace StyleScope.Text

@[simp] theorem byteLength_nil : byteLength [] = 0 := rfl

@[simp] theorem byteLength_cons (c : Char) (r : Text) :
    byteLength (c :: r) = c.utf8Size + byteLength r := rfl

@[simp] theorem byteLength_append (u v : Text) :
    byteLength (u ++ v) = byteLength u + byteLength v := by
  induction u with
  | nil => simp
  | cons c u ih =>
      rw [List.cons_append, byteLength_cons, byteLength_cons, ih]
      omega

/-- The text up to a byte offset, if the offset is a character boundary. -/
def takeBytes? : Text → Nat → Option Text
  | _, 0 => some []
  | [], _ + 1 => none
  | c :: r, n + 1 =>
    if c.utf8Size ≤ n + 1 then (takeBytes? r (n + 1 - c.utf8Size)).map (c :: ·) else none

/-- The text between two byte offsets, if both are character boundaries in this order. -/
def slice? (t : Text) (start stop : Nat) : Option Text :=
  if start ≤ stop then (dropBytes? t start).bind (takeBytes? · (stop - start)) else none

/-- The difference of two lengths, the first of which has to be the longer one. -/
def checkedSub? (m n : Nat) : Option Nat := if n ≤ m then some (m - n) else none

/-- The byte offset at which a pattern is first found. -/
def findBytes? (pattern : Text) : Text → Option Nat
  | [] => if pattern.isEmpty then some 0 else none
  | c :: r =>
    if pattern.isPrefixOf (c :: r) then some 0 else (findBytes? pattern r).map (c.utf8Size + ·)

section
variable {input t u v r : Text} {c : Char} {n : Nat}

@[simp] theorem dropBytes?_zero : dropBytes? t 0 = some t := by
  cases t <;> rfl

theorem exists_utf8Size_eq_succ (c : Char) : ∃ k, c.utf8Size = k + 1 :=
  Nat.exists_eq_add_one.2 c.utf8Size_pos

theorem dropBytes?_cons (c : Char) (r : Text) (n : Nat) :
    dropBytes? (c :: r) (c.utf8Size + n) = dropBytes? r n := by
  obtain ⟨k, hk⟩ := exists_utf8Size_eq_succ c
  have hadd : c.utf8Size + n = (k + n) + 1 := by omega
  rw [hadd, dropBytes?, if_pos (by omega)]
  congr 1
  omega

theorem dropBytes?_append (u t : Text) (n : Nat) :
    dropBytes? (u ++ t) (byteLength u + n) = dropBytes? t n := by
  induction u with
  | nil => simp
  | cons c u ih => rw [List.cons_append, byteLength_cons, Nat.add_assoc, dropBytes?_cons, ih]

/-- The offset of a boundary is the length of what stands before it. -/
theorem dropBytes?_eq_some_iff : dropBytes? t n = some r ↔ ∃ u, t = u ++ r ∧ byteLength u = n := by
  constructor
  · intro h
    fun_induction dropBytes? t n with
    | case1 t => exact ⟨[], Option.some.inj h, rfl⟩
    | case2 => exact absurd h (by simp)
    | case3 c t n hle ih =>
        obtain ⟨u, rfl, hu⟩ := ih h
        refine ⟨c :: u, rfl, ?_⟩
        rw [byteLength_cons]
        omega
    | case4 => exact absurd h (by simp)
  · rintro ⟨u, rfl, rfl⟩
    exact (dropBytes?_append u r 0).trans dropBytes?_zero

theorem takeBytes?_append (u t : Text) : takeBytes? (u ++ t) (byteLength u) = some u := by
  induction u with
  | nil => rw [byteLength_nil, takeBytes?]
  | cons c u ih =>
      obtain ⟨k, hk⟩ := exists_utf8Size_eq_succ c
      have hadd : c.utf8Size + byteLength u = (k + byteLength u) + 1 := by omega
      have hsub : k + byteLength u + 1 - c.utf8Size = byteLength u := by omega
      rw [List.cons_append, byteLength_cons, hadd, takeBytes?, if_pos (by omega), hsub, ih]
      rfl

/-- Reading a text moves the offset by its length. -/
theorem dropBytes?_add (h : dropBytes? input n = some (u ++ r)) :
    dropBytes? input (n + byteLength u) = some r := by
  obtain ⟨w, rfl, rfl⟩ := dropBytes?_eq_some_iff.1 h
  exact dropBytes?_eq_some_iff.2 ⟨w ++ u, by simp, by simp⟩

theorem dropBytes?_next (h : dropBytes? input n = some (c :: r)) :
    dropBytes? input (n + c.utf8Size) = some r :=
  dropBytes?_add (u := [c]) h

theorem dropBytes?_utf8Size (c : Char) (r : Text) : dropBytes? (c :: r) c.utf8Size = some r :=
  dropBytes?_eq_some_iff.2 ⟨[c], rfl, by simp⟩

theorem add_byteLength_of_dropBytes? (h : dropBytes? input n = some t) :
    n + byteLength t = byteLength input := by
  obtain ⟨w, rfl, rfl⟩ := dropBytes?_eq_some_iff.1 h
  simp

/-- An offset with a character behind it is not that of the end. -/
theorem lt_byteLength_of_dropBytes? (h : dropBytes? input n = some (c :: r)) :
    n < byteLength input := by
  have hlength := add_byteLength_of_dropBytes? h
  have hpos := c.utf8Size_pos
  rw [byteLength_cons] at hlength
  omega

theorem eq_nil_of_dropBytes?_byteLength (h : dropBytes? input (byteLength input) = some t) :
    t = [] := by
  cases t with
  | nil => rfl
  | cons c r => exact absurd (lt_byteLength_of_dropBytes? h) (Nat.lt_irrefl _)

theorem dropBytes?_byteLength (t : Text) : dropBytes? t (byteLength t) = some [] :=
  dropBytes?_eq_some_iff.2 ⟨t, by simp, rfl⟩

/-- The text between two boundaries is what was read from the one to the other. -/
theorem slice?_of_dropBytes? (h : dropBytes? input n = some (u ++ r)) :
    slice? input n (n + byteLength u) = some u := by
  rw [slice?, if_pos (by omega), h, Option.bind_some, Nat.add_sub_cancel_left, takeBytes?_append]

theorem slice?_of_append (h : dropBytes? input n = some t) (happ : u ++ r = t) :
    slice? input n (n + byteLength u) = some u :=
  slice?_of_dropBytes? (h.trans (congrArg some happ.symm))

theorem dropBytes?_of_append (h : dropBytes? input n = some t) (happ : u ++ r = t) :
    dropBytes? input (n + byteLength u) = some r :=
  dropBytes?_add (h.trans (congrArg some happ.symm))

/-- The offset `k` is a boundary between `n` and the end of the text, and `r` stands behind it. -/
structure Lands (input : Text) (n k : Nat) (r : Text) : Prop where
  start_le : n ≤ k
  le_end : k ≤ byteLength input
  behind : dropBytes? input k = some r

theorem Lands.of_dropBytes? {k : Nat} (h : dropBytes? input k = some r) (hle : n ≤ k) :
    Lands input n k r := by
  have hlength := add_byteLength_of_dropBytes? h
  exact ⟨hle, by omega, h⟩

theorem Lands.of_le {m k : Nat} (h : Lands input m k r) (hle : n ≤ m) : Lands input n k r :=
  ⟨Nat.le_trans hle h.start_le, h.le_end, h.behind⟩

theorem Lands.next {k : Nat} (h : Lands input n k (c :: r)) : Lands input n (k + c.utf8Size) r :=
  .of_dropBytes? (dropBytes?_next h.behind) (Nat.le_add_right_of_le h.start_le)

theorem lands_byteLength (h : dropBytes? input n = some t) :
    Lands input n (byteLength input) [] := by
  have hlength := add_byteLength_of_dropBytes? h
  exact .of_dropBytes? (dropBytes?_byteLength input) (by omega)

theorem checkedSub?_of_le {m : Nat} (h : n ≤ m) : checkedSub? m n = some (m - n) := if_pos h

theorem checkedSub?_of_append (u v : Text) :
    checkedSub? (byteLength (u ++ v)) (byteLength v) = some (byteLength u) := by
  rw [byteLength_append, checkedSub?_of_le (by omega), Nat.add_sub_cancel]

end

/-! ### Comments -/

def commentAt (input : Text) (n : Nat) : Bool := (dropBytes? input n).any startsComment

/-- The offset behind the comment that opens at `n`: that of the text's end if nothing closes it. -/
def commentEnd? (input : Text) (n : Nat) : Option Nat := do
  match findBytes? ['*', '/'] (← dropBytes? input (n + 2)) with
  | some k => return n + 2 + k + 2
  | none => return byteLength input

/-- Moves an offset on until it has come to `resume`. -/
def skipTo? (input : Text) (resume n : Nat) : Option Nat :=
  if n < resume then
    match _h : dropBytes? input n with
    | none => none
    | some [] => some n
    | some (c :: _) => skipTo? input resume (n + c.utf8Size)
  else some n
termination_by byteLength input - n
decreasing_by
  exact Nat.sub_lt_sub_left (lt_byteLength_of_dropBytes? _h)
    (Nat.lt_add_of_pos_right (Char.utf8Size_pos _))

theorem le_of_skipTo? {input : Text} {resume n k : Nat} (h : skipTo? input resume n = some k) :
    n ≤ k := by
  fun_induction skipTo? input resume n with
  | case1 => exact absurd h (by simp)
  | case2 => exact Nat.le_of_eq (Option.some.inj h)
  | case3 n _ c r _ ih => exact Nat.le_trans (Nat.le_add_right n c.utf8Size) (ih h)
  | case4 => exact Nat.le_of_eq (Option.some.inj h)

theorem commentAt_eq_true_iff {input : Text} {n : Nat} :
    commentAt input n = true ↔ ∃ r, dropBytes? input n = some ('/' :: '*' :: r) := by
  rw [commentAt, Option.any_eq_true]
  simp only [startsComment_eq_true_iff]
  constructor
  · rintro ⟨t, ht, r, rfl⟩
    exact ⟨r, ht⟩
  · rintro ⟨r, hr⟩
    exact ⟨_, hr, r, rfl⟩

theorem Scan.through_cons {σ : Type} {m : Scan σ} {s : σ} {c : Char} (h : m.stops s c = false)
    (r : Text) :
    m.through s (c :: r) = (c :: (m.through (m.next s c) r).1, (m.through (m.next s c) r).2) := by
  rw [through, cut, if_neg (by simp [h]), through]
  rcases m.cut (m.next s c) r with ⟨a, _ | ⟨d, u⟩⟩ <;> rfl

/-- Behind a star a comment goes on as behind anything else, unless a slash comes next. -/
theorem commentScan_through_star {r : Text} (h : ∀ d ∈ r.head?, d ≠ '/') (star : Bool) :
    commentScan.through star r = splitComment r := by
  cases r with
  | nil => rfl
  | cons d r =>
      have hd : d ≠ '/' := h d rfl
      have hstop (s : Bool) : commentScan.stops s d = false := by simp [commentScan, hd]
      rw [splitComment, Scan.through_cons (hstop star), Scan.through_cons (hstop false)]
      rfl

/-- The search for what closes a comment finds the place where the comment is cut. -/
theorem findBytes?_comment (r : Text) :
    (∃ body rest, splitComment r = (body ++ ['*', '/'], rest) ∧
        findBytes? ['*', '/'] r = some (byteLength body)) ∨
      splitComment r = (r, []) ∧ findBytes? ['*', '/'] r = none := by
  induction r with
  | nil => exact .inr ⟨rfl, rfl⟩
  | cons c r ih =>
      by_cases hclose : (['*', '/'] : Text).isPrefixOf (c :: r) = true
      · obtain ⟨rest, hrest⟩ := List.isPrefixOf_iff_prefix.1 hclose
        rw [← hrest]
        exact .inl ⟨[], rest, rfl, rfl⟩
      · have hstep : splitComment (c :: r) = (c :: (splitComment r).1, (splitComment r).2) := by
          have hrest : commentScan.through (c = '*') r = splitComment r := by
            by_cases hstar : c = '*'
            · subst hstar
              refine commentScan_through_star ?_ _
              rintro d hd rfl
              obtain ⟨v, rfl⟩ := List.head?_eq_some_iff.1 hd
              exact hclose (by simp [List.isPrefixOf])
            · simp [hstar, splitComment]
          rw [← hrest, splitComment]
          exact Scan.through_cons rfl r
        rw [findBytes?, if_neg hclose, hstep]
        rcases ih with ⟨body, rest, hsplit, hfind⟩ | ⟨hsplit, hfind⟩
        · exact .inl ⟨c :: body, rest, by simp [hsplit], by simp [hfind]⟩
        · exact .inr ⟨by simp [hsplit], by simp [hfind]⟩

theorem commentEnd?_of_dropBytes? {input r : Text} {n : Nat}
    (h : dropBytes? input n = some ('/' :: '*' :: r)) :
    commentEnd? input n = some (n + byteLength ('/' :: '*' :: (splitComment r).1)) := by
  have hopen : dropBytes? input (n + 2) = some r := dropBytes?_add (u := ['/', '*']) h
  have hlength := add_byteLength_of_dropBytes? hopen
  have hsign : '/'.utf8Size = 1 ∧ '*'.utf8Size = 1 := ⟨rfl, rfl⟩
  rw [commentEnd?, hopen]
  rcases findBytes?_comment r with ⟨body, rest, hsplit, hfind⟩ | ⟨hsplit, hfind⟩
  · simp only [Option.bind_eq_bind, Option.bind_some, hfind, hsplit, byteLength_append,
      byteLength_cons, byteLength_nil, hsign]
    congr 1
    omega
  · simp only [Option.bind_eq_bind, Option.bind_some, hfind, hsplit, byteLength_cons, hsign]
    congr 1
    omega

/-- What follows a comment, which is shorter than the text that starts with it. -/
theorem dropBytes?_splitComment {input r : Text} {n : Nat}
    (h : dropBytes? input n = some ('/' :: '*' :: r)) :
    dropBytes? input (n + byteLength ('/' :: '*' :: (splitComment r).1)) =
        some (splitComment r).2 ∧
      (splitComment r).2.length < ('/' :: '*' :: r).length := by
  have hsplit := splitComment_append r
  have hlength := congrArg List.length hsplit
  rw [List.length_append] at hlength
  refine ⟨dropBytes?_add ?_, ?_⟩
  · rwa [List.cons_append, List.cons_append, hsplit]
  · simp only [List.length_cons]
    omega

/-- An offset that moves on to a boundary comes to it exactly. -/
theorem skipTo?_of_dropBytes? {input u r : Text} {n : Nat}
    (h : dropBytes? input n = some (u ++ r)) :
    skipTo? input (n + byteLength u) n = some (n + byteLength u) := by
  induction u generalizing n with
  | nil =>
      rw [skipTo?]
      simp
  | cons c u ih =>
      have hpos := c.utf8Size_pos
      have hstep := ih (dropBytes?_next h)
      rw [skipTo?, if_pos (by simp only [byteLength_cons]; omega), h]
      rw [Nat.add_assoc] at hstep
      exact hstep

end StyleScope.Text
