import StyleScope.Proofs.Offsets.Slices
import StyleScope.Proofs.Text.Covers

/-! # Loops over byte offsets

A loop over the characters of a text holds the offset of the next one. It adds to it the size of a
character, of two characters behind a backslash, or moves it on to the end of a comment that was
searched for. `Walk.run?` is such a loop; it has no result if an offset is no boundary or if a
counter would fall below zero.

Round by round, a loop whose counters stay in order goes from boundary to boundary, and where it
stops there is a character that it stops at (`Walk.run?_safe`). The loops that look outside of
strings, comments and escapes (`quoting`) do with offsets and an open quote what a scan does
character by character (`Tracks.run?_eq`).
-/
namespace StyleScope.Text

/-- What a loop does with a character. -/
inductive Move (σ : Type) where
  /-- The loop ends here. -/
  | stop
  /-- It goes on behind the character. -/
  | step (state : σ)
  /-- It goes on behind the next character. -/
  | pair (state : σ)
  /-- It goes on behind the comment that opens here. -/
  | comment (state : σ)

structure Walk (σ : Type) where
  /-- What to do with a character, at which a comment opens or not; none if a counter would fall
  below zero. -/
  move : σ → Char → Bool → Option (Move σ)
  /-- The loop ends at once where a comment is not closed. -/
  early : Bool := false

inductive Round (σ : Type) where
  /-- The loop ends, in front of a character or with the text. -/
  | ends (place : Option (Nat × Char))
  /-- It goes on from another offset. -/
  | goes (next : Nat) (state : σ)

def Walk.round? {σ : Type} (m : Walk σ) (input : Text) (n : Nat) (s : σ) :
    Option (Round σ) := do
  match ← dropBytes? input n with
  | [] => return .ends none
  | c :: _ =>
    match ← m.move s c (commentAt input n) with
    | .stop => return .ends (some (n, c))
    | .step s => return .goes (n + c.utf8Size) s
    | .pair s =>
      match ← dropBytes? input (n + c.utf8Size) with
      | [] => return .ends none
      | d :: _ => return .goes (n + c.utf8Size + d.utf8Size) s
    | .comment s =>
      let resume ← commentEnd? input n
      if m.early && resume = byteLength input then return .ends none
      else return .goes (← skipTo? input resume (n + c.utf8Size)) s

theorem Walk.lt_of_round? {σ : Type} {m : Walk σ} {input : Text} {n k : Nat} {s s' : σ}
    (h : m.round? input n s = some (.goes k s')) : n < byteLength input ∧ n < k := by
  unfold round? at h
  obtain ⟨t, ht, h⟩ := Option.bind_eq_some_iff.1 h
  rcases t with _ | ⟨c, r⟩
  · exact absurd h (by simp)
  have hpos := c.utf8Size_pos
  refine ⟨lt_byteLength_of_dropBytes? ht, ?_⟩
  obtain ⟨move, -, h⟩ := Option.bind_eq_some_iff.1 h
  cases move with
  | stop => exact absurd h (by simp)
  | step =>
      obtain ⟨rfl, -⟩ := Round.goes.inj (Option.some.inj h)
      omega
  | pair =>
      obtain ⟨u, -, h⟩ := Option.bind_eq_some_iff.1 h
      rcases u with _ | ⟨d, u⟩
      · exact absurd h (by simp)
      · obtain ⟨rfl, -⟩ := Round.goes.inj (Option.some.inj h)
        omega
  | comment =>
      obtain ⟨resume, -, h⟩ := Option.bind_eq_some_iff.1 h
      split at h
      · exact absurd h (by simp)
      · obtain ⟨j, hj, h⟩ := Option.bind_eq_some_iff.1 h
        obtain ⟨rfl, -⟩ := Round.goes.inj (Option.some.inj h)
        have hle := le_of_skipTo? hj
        omega

/-- The offset and the character at which the loop stops, or none if it comes to the end. -/
def Walk.run? {σ : Type} (m : Walk σ) (input : Text) (n : Nat) (s : σ) :
    Option (Option (Nat × Char)) :=
  match _h : m.round? input n s with
  | none => none
  | some (.ends place) => some place
  | some (.goes k s') => m.run? input k s'
termination_by byteLength input - n
decreasing_by
  obtain ⟨hlt, hgo⟩ := lt_of_round? _h
  exact Nat.sub_lt_sub_left hlt hgo

namespace Walk
variable {σ : Type} {m : Walk σ} {input r : Text} {n : Nat} {s s' : σ} {c d : Char}

theorem run?_ends {place : Option (Nat × Char)} (h : m.round? input n s = some (.ends place)) :
    m.run? input n s = some place := by
  rw [run?, h]

theorem run?_goes {k : Nat} (h : m.round? input n s = some (.goes k s')) :
    m.run? input n s = m.run? input k s' := by
  rw [run?, h]

theorem run?_of_dropBytes?_eq_none (h : dropBytes? input n = none) : m.run? input n s = none := by
  rw [run?, show m.round? input n s = none by rw [round?, h]; rfl]

theorem run?_nil (h : dropBytes? input n = some []) : m.run? input n s = some none := by
  apply run?_ends
  rw [round?, h]
  rfl

theorem run?_stop (h : dropBytes? input n = some (c :: r))
    (hmove : m.move s c (startsComment (c :: r)) = some .stop) :
    m.run? input n s = some (some (n, c)) := by
  apply run?_ends
  rw [round?, commentAt, h]
  simp [hmove]

theorem run?_step (h : dropBytes? input n = some (c :: r))
    (hmove : m.move s c (startsComment (c :: r)) = some (.step s')) :
    m.run? input n s = m.run? input (n + c.utf8Size) s' := by
  apply run?_goes
  rw [round?, commentAt, h]
  simp [hmove]

theorem run?_pair_nil (h : dropBytes? input n = some [c])
    (hmove : m.move s c (startsComment [c]) = some (.pair s')) :
    m.run? input n s = some none := by
  apply run?_ends
  rw [round?, commentAt, h]
  simp [hmove, dropBytes?_next h]

theorem run?_pair (h : dropBytes? input n = some (c :: d :: r))
    (hmove : m.move s c (startsComment (c :: d :: r)) = some (.pair s')) :
    m.run? input n s = m.run? input (n + byteLength [c, d]) s' := by
  apply run?_goes
  rw [round?, commentAt, h]
  simp [hmove, dropBytes?_next h, Nat.add_assoc]

/-- Whether the loop ends at once or goes on behind an open comment, nothing is left. -/
theorem run?_comment (h : dropBytes? input n = some ('/' :: '*' :: r))
    (hmove : m.move s '/' true = some (.comment s')) :
    m.run? input n s = m.run? input (n + byteLength ('/' :: '*' :: (splitComment r).1)) s' := by
  have hnext : dropBytes? input (n + '/'.utf8Size) =
      some ('*' :: (splitComment r).1 ++ (splitComment r).2) := by
    rw [List.cons_append, splitComment_append]
    exact dropBytes?_next h
  have hskip := skipTo?_of_dropBytes? hnext
  rw [Nat.add_assoc, ← byteLength_cons] at hskip
  obtain ⟨hrest, -⟩ := dropBytes?_splitComment h
  have hstarts : startsComment ('/' :: '*' :: r) = true := rfl
  have hround : m.round? input n s =
      if m.early && n + byteLength ('/' :: '*' :: (splitComment r).1) = byteLength input then
        some (.ends none)
      else some (.goes (n + byteLength ('/' :: '*' :: (splitComment r).1)) s') := by
    rw [round?, commentAt, h]
    simp only [Option.bind_eq_bind, Option.bind_some, Option.any_some, hstarts, hmove,
      commentEnd?_of_dropBytes? h, hskip]
    rfl
  split at hround
  · next hend =>
    -- the comment is open: the loop that does not end at once finds no character behind it
    obtain ⟨-, hresume⟩ := Bool.and_eq_true_iff.1 hend
    rw [of_decide_eq_true hresume] at hrest ⊢
    rw [run?_ends hround, run?_nil (eq_nil_of_dropBytes?_byteLength hrest ▸ hrest)]
  · exact run?_goes hround

end Walk

/-- The move leads to states that are in order, it skips a comment only where one opens, and it
stops only at a character that is sought. -/
def Move.Sound {σ : Type} (inv : σ → Prop) (sought : Prop) (opens : Bool) : Move σ → Prop
  | .stop => sought
  | .step s => inv s
  | .pair s => inv s
  | .comment s => inv s ∧ opens = true

/-- The loop stopped at a boundary from `n` on, in front of a character that is sought. -/
def StopsAt (input : Text) (n : Nat) (sought : Char → Prop) (p : Nat × Char) : Prop :=
  sought p.2 ∧ ∃ r, Lands input n p.1 (p.2 :: r)

theorem StopsAt.of_le {input : Text} {n n' : Nat} {sought : Char → Prop} {p : Nat × Char}
    (h : StopsAt input n' sought p) (hle : n ≤ n') : StopsAt input n sought p := by
  obtain ⟨hsought, r, hlands⟩ := h
  exact ⟨hsought, r, hlands.of_le hle⟩

/-- A loop that makes sound moves goes from boundary to boundary, and ends. -/
theorem Walk.run?_safe {σ : Type} {m : Walk σ} (inv : σ → Prop) {sought : Char → Prop}
    (hmove : ∀ s c opens, inv s →
      ∃ move, m.move s c opens = some move ∧ move.Sound inv (sought c) opens)
    {input t : Text} {n : Nat} {s : σ} (h : dropBytes? input n = some t) (hs : inv s) :
    ∃ o, m.run? input n s = some o ∧ ∀ p ∈ o, StopsAt input n sought p := by
  induction hlength : t.length using Nat.strongRecOn generalizing t n s with
  | _ _ ih =>
  subst hlength
  cases t with
  | nil => exact ⟨none, run?_nil h, by simp⟩
  | cons c r =>
      -- behind any move but a stop the loop goes on with a shorter text
      have hgo {u : Text} {k : Nat} {s' : σ} (hlt : u.length < (c :: r).length) (hle : n ≤ k)
          (hu : dropBytes? input k = some u) (hs' : inv s')
          (hrun : m.run? input n s = m.run? input k s') :
          ∃ o, m.run? input n s = some o ∧ ∀ p ∈ o, StopsAt input n sought p := by
        obtain ⟨o, ho, hstop⟩ := ih _ hlt hu hs' rfl
        exact ⟨o, hrun.trans ho, fun p hp => (hstop p hp).of_le hle⟩
      obtain ⟨move, hm, hsound⟩ := hmove s c (startsComment (c :: r)) hs
      cases move with
      | stop =>
          refine ⟨_, run?_stop h hm, ?_⟩
          rintro p ⟨⟩
          exact ⟨hsound, r, .of_dropBytes? h (Nat.le_refl n)⟩
      | step s' => exact hgo (by simp) (by omega) (dropBytes?_next h) hsound (run?_step h hm)
      | pair s' =>
          cases r with
          | nil => exact ⟨none, run?_pair_nil h hm, by simp⟩
          | cons d r =>
              have hlt : r.length < (c :: d :: r).length := by
                simp only [List.length_cons]
                omega
              exact hgo hlt (by omega) (dropBytes?_add (u := [c, d]) h) hsound (run?_pair h hm)
      | comment s' =>
          obtain ⟨v, hv⟩ := startsComment_eq_true_iff.1 hsound.2
          obtain ⟨rfl, rfl⟩ := List.cons.inj hv
          obtain ⟨hrest, hlt⟩ := dropBytes?_splitComment h
          exact hgo hlt (by omega) hrest hsound.1 (run?_comment h hm)

/-! ### Loops up to a character -/

/-- A loop up to the first character that `stops`, which is told whether a comment opens there. -/
def seeking (stops : Char → Bool → Bool) : Walk Unit where
  move _ c opens := some (if stops c opens then .stop else .step ())

/-- The offset of the first character from `n` on that `stops`, or of the end. -/
def seek? (stops : Char → Bool → Bool) (input : Text) (n : Nat) : Option Nat := do
  match ← (seeking stops).run? input n () with
  | some (k, _) => return k
  | none => return byteLength input

/-- What such a loop passes over is known by its recursion. -/
theorem seek?_eq {stops : Char → Bool → Bool} (passed : Text → Text) (hnil : passed [] = [])
    (hcons : ∀ c r,
      passed (c :: r) = if stops c (startsComment (c :: r)) then [] else c :: passed r)
    {input t : Text} {n : Nat} (h : dropBytes? input n = some t) :
    seek? stops input n = some (n + byteLength (passed t)) := by
  induction t generalizing n with
  | nil =>
      have hlength := add_byteLength_of_dropBytes? h
      rw [byteLength_nil, Nat.add_zero] at hlength
      rw [seek?, Walk.run?_nil h, hnil, hlength]
      rfl
  | cons c r ih =>
      have hmove (opens : Bool) : (seeking stops).move () c opens =
          some (if stops c opens then .stop else .step ()) := rfl
      cases hstop : stops c (startsComment (c :: r)) with
      | true =>
          rw [seek?, Walk.run?_stop h (by rw [hmove, if_pos hstop]), hcons, if_pos hstop]
          rfl
      | false =>
          have hrest := ih (dropBytes?_next h)
          rw [seek?] at hrest ⊢
          rw [Walk.run?_step h (by rw [hmove, if_neg (by simp [hstop])]), hrest, hcons,
            if_neg (by simp [hstop]), byteLength_cons, Nat.add_assoc]

/-- The offset behind the characters from `n` on that have the property `p`. -/
def skipWhile? (p : Char → Bool) : Text → Nat → Option Nat := seek? fun c _ => !p c

theorem skipWhile?_eq (p : Char → Bool) {input t : Text} {n : Nat}
    (h : dropBytes? input n = some t) :
    skipWhile? p input n = some (n + byteLength (t.takeWhile p)) := by
  refine seek?_eq (List.takeWhile p) rfl (fun c r => ?_) h
  rw [List.takeWhile_cons]
  cases p c <;> rfl

/-- What follows the characters that have the property `p`. -/
theorem dropBytes?_takeWhile (p : Char → Bool) {input t : Text} {n : Nat}
    (h : dropBytes? input n = some t) :
    dropBytes? input (n + byteLength (t.takeWhile p)) = some (t.dropWhile p) := by
  refine dropBytes?_add ?_
  rwa [List.takeWhile_append_dropWhile]

/-! ### Loops that pass over strings, comments and escapes -/

/-- A loop that takes account of strings and escapes, and of comments if the dialect knows them. Any
other character is left to `sign`, which has no result if a counter would fall below zero, and no
next state where the loop stops. -/
def quoting {σ : Type} (k : Dialect) (early : Bool) (sign : σ → Char → Option (Option σ)) :
    Walk (Option Char × σ) where
  early
  move s c opens :=
    if c = '\\' then some (.pair s)
    else
      match s.1 with
      | some q =>
        some (.step (if c = q || (k.lineStrings && isNewline c) then none else some q, s.2))
      | none =>
        if isQuote c then some (.step (some c, s.2))
        else if k.comments && opens then some (.comment (none, s.2))
        else (sign s.2 c).map fun
          | none => .stop
          | some s' => .step (none, s')

section
variable {σ : Type} {k : Dialect} {early : Bool} {sign : σ → Char → Option (Option σ)} {s : σ}
  {c : Char} {opens : Bool}

theorem quoting_inside {q : Char} (hback : c ≠ '\\') :
    (quoting k early sign).move (some q, s) c opens =
      some (.step (if c = q || (k.lineStrings && isNewline c) then none else some q, s)) := by
  simp only [quoting, if_neg hback]

theorem quoting_quote (hback : c ≠ '\\') (hquote : isQuote c = true) :
    (quoting k early sign).move (none, s) c opens = some (.step (some c, s)) := by
  simp only [quoting, if_neg hback, hquote, if_true]

theorem quoting_comment (hk : k.comments = true) :
    (quoting k early sign).move (none, s) '/' true = some (.comment (none, s)) := by
  simp [quoting, isQuote, hk]

theorem quoting_sign (hback : c ≠ '\\') (hquote : isQuote c = false)
    (hcomment : (k.comments && opens) = false) :
    (quoting k early sign).move (none, s) c opens =
      (sign s c).map fun
        | none => .stop
        | some s' => .step (none, s') := by
  simp only [quoting, if_neg hback, hquote, hcomment, Bool.false_eq_true, if_false]

/-- Such a loop stops safely if the counters stay in order. -/
theorem run?_quoting_safe (k : Dialect) (early : Bool) {inv : σ → Prop} {sought : Char → Prop}
    (hsign : ∀ s c, inv s → ∃ o, sign s c = some o ∧ (o = none → sought c) ∧ ∀ s' ∈ o, inv s')
    {input t : Text} {n : Nat} (h : dropBytes? input n = some t) (hs : inv s) :
    ∃ o, (quoting k early sign).run? input n (none, s) = some o ∧
      ∀ p ∈ o, StopsAt input n sought p := by
  refine Walk.run?_safe (fun s => inv s.2) ?_ h hs
  rintro ⟨quote, s⟩ c opens hs
  by_cases hback : c = '\\'
  · subst hback
    exact ⟨.pair (quote, s), rfl, hs⟩
  · cases quote with
    | some q => exact ⟨_, quoting_inside hback, hs⟩
    | none =>
        cases hquote : isQuote c with
        | true => exact ⟨_, quoting_quote hback hquote, hs⟩
        | false =>
            cases hcomment : k.comments && opens with
            | true =>
                refine ⟨.comment (none, s), ?_, hs, (Bool.and_eq_true_iff.1 hcomment).2⟩
                simp only [quoting, if_neg hback, hquote, hcomment, Bool.false_eq_true, if_false,
                  if_true]
            | false =>
                obtain ⟨o, ho, hstop, hgo⟩ := hsign s c hs
                rw [quoting_sign hback hquote hcomment, ho]
                cases o with
                | none => exact ⟨_, rfl, hstop rfl⟩
                | some s' => exact ⟨_, rfl, hgo s' rfl⟩

end

/-! ### Loops and scans -/

/-- The place at which a scan that started at `n` has cut a text, and the character there. -/
def cutAt (n : Nat) : Text × Text → Option (Nat × Char)
  | (_, []) => none
  | (u, c :: _) => some (n + byteLength u, c)

theorem cutAt_append (n : Nat) (v : Text) (p : Text × Text) :
    cutAt n (v ++ p.1, p.2) = cutAt (n + byteLength v) p := by
  obtain ⟨u, _ | ⟨c, r⟩⟩ := p
  · rfl
  · simp [cutAt, Nat.add_assoc]

/-- The open quote in the state of a loop is the cover in the state of a scan. -/
inductive Quoted : Option Char → Cover → Text → Prop
  | outside {cover : Cover} {t : Text} : Uncovered cover t → Quoted none cover t
  | inside {q : Char} {t : Text} : isQuote q = true → Quoted (some q) (.ofString q false) t

/-- The character of a string leaves it open or closes it. -/
theorem Quoted.next (k : Dialect) {q c : Char} (hq : isQuote q = true) (hc : c ≠ '\\') (r : Text) :
    Quoted (if c = q || (k.lineStrings && isNewline c) then none else some q)
      ((Cover.ofString q false).next k c) r := by
  split
  · next hend =>
    have hstop : (stringScan k.lineStrings q).stops false c = true := by
      simpa [stringScan] using hend
    rw [Cover.next_of_stops k hq hstop]
    exact .outside (.inl rfl)
  · next hopen =>
    have hstop : (stringScan k.lineStrings q).stops false c = false := by
      simpa [stringScan] using hopen
    have hfalse : (stringScan k.lineStrings q).next false c = false := by simp [stringScan, hc]
    rw [Cover.next_ofString k hq false hstop, hfalse]
    exact .inside hq

/-- The cover behind the quote that opens a string. -/
theorem Cover.afterExposed_quote (k : Dialect) {q : Char} (hq : isQuote q = true) :
    afterExposed k q = ofString q false := by
  obtain rfl | rfl : q = '\'' ∨ q = '"' := by simpa [isQuote] using hq
  · rfl
  · rfl

/-- The characters behind which the cover may be another one. -/
def coverSigns : List Char := ['\\', '\'', '"', '/', '*']

/-- The loop with the states `walk a` does what the scan does in the states `scan a`. -/
structure Tracks {α σ τ : Type} (k : Dialect) (sign : σ → Char → Option (Option σ)) (m : Scan τ)
    (walk : α → σ) (scan : α → Cover → τ) : Prop where
  hides (a : α) : m.Hides k (scan a)
  exposed (a : α) (c : Char) {cover : Cover} : cover.exposes = true →
    ∃ a', sign (walk a) c = some (if m.stops (scan a cover) c then none else some (walk a')) ∧
      (m.stops (scan a cover) c = false → m.next (scan a cover) c = scan a' (cover.next k c))
  covers (a : α) {c : Char} {cover : Cover} : cover.exposes = true → c ∈ coverSigns →
    m.stops (scan a cover) c = false ∧ m.next (scan a cover) c = scan a (cover.next k c)

namespace Tracks
variable {α σ τ : Type} {k : Dialect} {sign : σ → Char → Option (Option σ)} {m : Scan τ}
  {walk : α → σ} {scan : α → Cover → τ} {early : Bool} {input r : Text} {n : Nat} {a : α}
  {quote : Option Char} {cover : Cover} {c : Char}

/-- From the text `t` on both the loop and the scan pass over some of it, and go on in states that
belong together. -/
def Advances (w : Walk (Option Char × σ)) (m : Scan τ) (walk : α → σ) (scan : α → Cover → τ)
    (input t : Text) (n : Nat) (a : α) (quote : Option Char) (cover : Cover) : Prop :=
  ∃ v u a' quote' cover', v ++ u = t ∧ v ≠ [] ∧ Quoted quote' cover' u ∧
    w.run? input n (quote, walk a) = w.run? input (n + byteLength v) (quote', walk a') ∧
    m.cut (scan a cover) t = (v ++ (m.cut (scan a' cover') u).1, (m.cut (scan a' cover') u).2)

section
variable (h : Tracks k sign m walk scan)
include h

/-- A backslash covers the next character, and behind that all is as before. -/
theorem escape (a : α) (hquote : Quoted quote cover ('\\' :: r)) :
    ∃ behind : Cover, behind.exposes = false ∧ m.stops (scan a cover) '\\' = false ∧
      m.next (scan a cover) '\\' = scan a behind ∧
      ∀ d u, Quoted quote (behind.next k d) u := by
  cases hquote with
  | outside hcover =>
      obtain ⟨hstop, hnext⟩ := h.covers a hcover.exposes (c := '\\') (by decide)
      rw [hcover.next k] at hnext
      exact ⟨.escape, rfl, hstop, hnext, fun d u => .outside (.inl rfl)⟩
  | @inside q _ hq =>
      have hcover := Cover.exposes_ofString q false
      have hback : (stringScan k.lineStrings q).stops false '\\' = false := by
        obtain rfl | rfl : q = '\'' ∨ q = '"' := by simpa [isQuote] using hq
        · simp [stringScan, isNewline]
        · simp [stringScan, isNewline]
      refine ⟨.ofString q true, Cover.exposes_ofString q true, (h.hides a).stops _ hcover, ?_, ?_⟩
      · rw [(h.hides a).next _ hcover, Cover.next_ofString k hq false hback]
        rfl
      · intro d u
        rw [Cover.next_ofString k hq true rfl]
        exact .inside hq

theorem advances_escape {d : Char} (ht : dropBytes? input n = some ('\\' :: d :: r))
    (hquote : Quoted quote cover ('\\' :: d :: r)) :
    Advances (quoting k early sign) m walk scan input ('\\' :: d :: r) n a quote cover := by
  obtain ⟨behind, hcover, hstop, hnext, hquoted⟩ := h.escape a hquote
  refine ⟨['\\', d], r, a, quote, behind.next k d, rfl, by simp, hquoted d r,
    Walk.run?_pair ht rfl, ?_⟩
  rw [Scan.cut_cons hstop, hnext, Scan.cut_cons ((h.hides a).stops d hcover),
    (h.hides a).next d hcover]
  rfl

theorem advances_inside {q : Char} (ht : dropBytes? input n = some (c :: r)) (hback : c ≠ '\\')
    (hq : isQuote q = true) :
    Advances (quoting k early sign) m walk scan input (c :: r) n a (some q)
      (.ofString q false) := by
  have hcover := Cover.exposes_ofString q false
  refine ⟨[c], r, a, _, _, rfl, by simp, Quoted.next k hq hback r,
    Walk.run?_step ht (quoting_inside hback), ?_⟩
  rw [Scan.cut_cons ((h.hides a).stops c hcover), (h.hides a).next c hcover]
  rfl

theorem advances_quote (ht : dropBytes? input n = some (c :: r)) (hback : c ≠ '\\')
    (hsign : isQuote c = true) (hcover : Uncovered cover (c :: r)) :
    Advances (quoting k early sign) m walk scan input (c :: r) n a none cover := by
  have hmem : c ∈ coverSigns := by
    obtain rfl | rfl : c = '\'' ∨ c = '"' := by simpa [isQuote] using hsign
    · decide
    · decide
  obtain ⟨hstop, hnext⟩ := h.covers a hcover.exposes hmem
  rw [hcover.next k, Cover.afterExposed_quote k hsign] at hnext
  refine ⟨[c], r, a, _, _, rfl, by simp, .inside hsign,
    Walk.run?_step ht (quoting_quote hback hsign), ?_⟩
  rw [Scan.cut_cons hstop, hnext]
  rfl

theorem advances_comment (ht : dropBytes? input n = some ('/' :: '*' :: r))
    (hk : k.comments = true) (hcover : Uncovered cover ('/' :: '*' :: r)) :
    Advances (quoting k early sign) m walk scan input ('/' :: '*' :: r) n a none cover := by
  obtain ⟨hstop, hnext⟩ := h.covers a hcover.exposes (c := '/') (by decide)
  have hslash : Cover.afterExposed k '/' = .slash := by simp [Cover.afterExposed, hk]
  rw [hcover.next k, hslash] at hnext
  have hexposed : Cover.slash.exposes = true := rfl
  obtain ⟨hstop', hnext'⟩ := h.covers a (c := '*') hexposed (by decide)
  have hstar : Cover.slash.next k '*' = .comment := rfl
  refine ⟨'/' :: '*' :: (splitComment r).1, (splitComment r).2, a, none, .plain, by simp, by simp,
    .outside (.inl rfl), Walk.run?_comment ht (quoting_comment hk), ?_⟩
  rw [Scan.cut_cons hstop, hnext, Scan.cut_cons hstop', hnext', hstar, (h.hides a).cut_comment]
  rfl

/-- One turn: the loop and the scan pass over the same text, or there is nothing left for both, or
they stop at the same character. -/
theorem advances (ht : dropBytes? input n = some (c :: r)) (hquote : Quoted quote cover (c :: r)) :
    Advances (quoting k early sign) m walk scan input (c :: r) n a quote cover ∨
      (quoting k early sign).run? input n (quote, walk a) =
        some (cutAt n (m.cut (scan a cover) (c :: r))) := by
  by_cases hback : c = '\\'
  · subst hback
    cases r with
    | nil =>
        obtain ⟨behind, -, hstop, -⟩ := h.escape a hquote
        rw [Walk.run?_pair_nil ht rfl, Scan.cut_cons hstop]
        exact .inr rfl
    | cons d r => exact .inl (h.advances_escape ht hquote)
  · cases hquote with
    | inside hq => exact .inl (h.advances_inside ht hback hq)
    | outside hcover =>
        cases hsign : isQuote c with
        | true => exact .inl (h.advances_quote ht hback hsign hcover)
        | false =>
            cases hcomment : k.comments && startsComment (c :: r) with
            | true =>
                obtain ⟨hk, hstarts⟩ := Bool.and_eq_true_iff.1 hcomment
                obtain ⟨v, hv⟩ := startsComment_eq_true_iff.1 hstarts
                rw [hv] at ht hcover ⊢
                exact .inl (h.advances_comment ht hk hcover)
            | false =>
                have hmove : (quoting k early sign).move (none, walk a) c _ = _ :=
                  quoting_sign hback hsign hcomment
                obtain ⟨a', hs, hnext⟩ := h.exposed a c hcover.exposes
                cases hstop : m.stops (scan a cover) c with
                | true =>
                  rw [hs, if_pos hstop] at hmove
                  rw [Walk.run?_stop ht hmove, Scan.cut, if_pos hstop]
                  exact .inr rfl
                | false =>
                  rw [hs, if_neg (by simp [hstop])] at hmove
                  have hnext := hnext hstop
                  rw [hcover.next k] at hnext
                  refine .inl ⟨[c], r, a', none, .afterExposed k c, rfl, by simp, .outside ?_,
                    Walk.run?_step ht hmove, ?_⟩
                  · refine uncovered_afterExposed hback hsign fun hk => ?_
                    simpa [hk] using hcomment
                  · rw [Scan.cut_cons hstop, hnext]
                    rfl

/-- A loop over offsets stops where the scan does that it tracks. -/
theorem run?_eq (early : Bool) {t : Text} (ht : dropBytes? input n = some t)
    (hquote : Quoted quote cover t) :
    (quoting k early sign).run? input n (quote, walk a) =
      some (cutAt n (m.cut (scan a cover) t)) := by
  induction hlength : t.length using Nat.strongRecOn generalizing t n a quote cover with
  | _ _ ih =>
  subst hlength
  cases t with
  | nil => exact Walk.run?_nil ht
  | cons c r =>
      rcases h.advances ht hquote with
        ⟨v, u, a', quote', cover', hu, hne, hquote', hrun, hcut⟩ | hend
      · have hlt : u.length < (c :: r).length := by
          have hpos := List.length_pos_iff.2 hne
          rw [← hu, List.length_append]
          omega
        rw [← hu] at ht
        rw [hrun, hcut, cutAt_append]
        exact ih _ hlt (dropBytes?_add ht) hquote' rfl
      · exact hend

end
end Tracks
end StyleScope.Text
