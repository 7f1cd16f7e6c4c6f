import StyleScope.Animation.Value
import StyleScope.Proofs.Offsets.Walks
import StyleScope.Selector.Segment
import StyleScope.Stylesheet.Statement

/-! # Scanners that return offsets

The six searches of the program as loops over byte offsets: for the end of a statement or of a
custom property, for a closing bracket, for a colon and a comma at the top, for the end of a string
and of a function in a value. Each comes with two theorems. The first says that it returns, and that
the offset it returns is a boundary behind the start, with the character expected there. The second
says that it returns the place where the text is cut.
-/
namespace StyleScope.Offsets
open Text Stylesheet Selector Animation

/-! ### The loops -/

/-- The depth behind a bracket, closing ones in excess being ignored. -/
def bracket? (depth : Nat) (c : Char) : Option Nat :=
  if c = '(' || c = '[' then some (depth + 1)
  else if c = ')' || c = ']' then some (depth - 1)
  else none

/-- Counts brackets and, in the value of a custom property, braces; stops at the end of a
statement. -/
def statementSign (nested : Bool) (s : Nat × Nat) (c : Char) : Option (Option (Nat × Nat)) :=
  match bracket? s.1 c with
  | some depth => some (some (depth, s.2))
  | none =>
    if c = '{' && nested then some (some (s.1, s.2 + 1))
    else if c = '}' && 0 < s.2 then (checkedSub? s.2 1).map fun braces => some (s.1, braces)
    else if c = '{' || c = '}' || (c = ';' && s.1 = 0 && s.2 = 0) then some none
    else some (some s)

/-- Counts brackets; stops at `target` outside of them. -/
def topSign (target : Char) (depth : Nat) (c : Char) : Option (Option Nat) :=
  match bracket? depth c with
  | some depth => some (some depth)
  | none => if c = target && depth = 0 then some none else some (some depth)

/-- Counts the brackets of one kind that are open; stops at the one that closes the first. -/
def closingSign (opening closing : Char) (depth : Nat) (c : Char) : Option (Option Nat) :=
  if c = opening then some (some (depth + 1))
  else if c = closing then
    (checkedSub? depth 1).map fun depth => if depth = 0 then none else some depth
  else some (some depth)

/-- The loop for the end of a string, behind its opening quote; a newline ends it if `line`. -/
def quotedWalk (line : Bool) (quote : Char) : Walk Unit where
  move _ c _ :=
    some (if c = '\\' then .pair ()
      else if c = quote || (line && isNewline c) then .stop
      else .step ())

/-- The loop for the end of a function, in front of its opening parenthesis. -/
def functionWalk : Walk Nat where
  move depth c _ :=
    if c = '(' then some (.step (depth + 1))
    else if c = ')' then
      (checkedSub? depth 1).map fun depth => if depth = 0 then .stop else .step depth
    else some (.step depth)

/-! ### The scanners -/

/-- What ends a statement. -/
inductive Terminator where
  | openBrace
  | semicolon
  | closeBrace
  | eof
deriving DecidableEq, Repr

namespace Terminator

def ofChar (c : Char) : Terminator :=
  if c = '{' then openBrace else if c = '}' then closeBrace else semicolon

def char? : Terminator → Option Char
  | openBrace => some '{'
  | semicolon => some ';'
  | closeBrace => some '}'
  | eof => none

def ofText : Text → Terminator
  | [] => eof
  | c :: _ => ofChar c

end Terminator

/-- The end of the statement that starts at `n`, or of the custom property if `nested`. -/
def statementEnd? (nested : Bool) (input : Text) (n : Nat) : Option (Nat × Terminator) := do
  match ← (quoting statementDialect true (statementSign nested)).run? input n (none, (0, 0)) with
  | some (k, c) => return (k, .ofChar c)
  | none => return (byteLength input, .eof)

/-- The offset of the bracket that closes one just before `n`. -/
def closing? (opening closing : Char) (input : Text) (n : Nat) : Option (Option Nat) := do
  return (← (quoting bracketDialect false (closingSign opening closing)).run? input n
    (none, 1)).map Prod.fst

def colon? (t : Text) : Option (Option Nat) := do
  return (← (quoting colonDialect false (topSign ':')).run? t 0 (none, 0)).map Prod.fst

def comma? (input : Text) (n : Nat) : Option (Option Nat) := do
  return (← (quoting listDialect false (topSign ',')).run? input n (none, 0)).map Prod.fst

/-- The length of the string that a text starts with, quotes included. -/
def quotedLength? (quote : Char) : Text → Option Nat
  | [] => some 0
  | c :: r => do
    match ← (quotedWalk false quote).run? (c :: r) c.utf8Size () with
    | some (k, _) => return k + 1
    | none => return byteLength (c :: r)

/-- The length of a text up to the end of the function whose parenthesis opens at `n`. -/
def functionLength? (t : Text) (n : Nat) : Option Nat := do
  match ← functionWalk.run? t n 0 with
  | some (k, _) => return k + 1
  | none => return byteLength t

/-! ### They are safe -/

/-- The step of a loop has a result, stops only at what is sought, and keeps the counters in
order. -/
def SafeSign {σ : Type} (inv : σ → Prop) (sought : Char → Prop)
    (sign : σ → Char → Option (Option σ)) : Prop :=
  ∀ s c, inv s → ∃ o, sign s c = some o ∧ (o = none → sought c) ∧ ∀ s' ∈ o, inv s'

theorem safeSign_statement (nested : Bool) :
    SafeSign (fun _ => True) (fun c => (Terminator.ofChar c).char? = some c)
      (statementSign nested) := by
  intro s c _
  unfold statementSign
  split
  · exact ⟨_, rfl, by simp, by simp⟩
  · split
    · exact ⟨_, rfl, by simp, by simp⟩
    · split
      · next hbrace =>
        have hpos : 0 < s.2 := by simpa using (Bool.and_eq_true_iff.1 hbrace).2
        rw [checkedSub?_of_le hpos]
        exact ⟨_, rfl, by simp, by simp⟩
      · split
        · next hend =>
          refine ⟨none, rfl, fun _ => ?_, by simp⟩
          simp only [Bool.or_eq_true, Bool.and_eq_true, decide_eq_true_eq] at hend
          rcases hend with (rfl | rfl) | ⟨⟨rfl, -⟩, -⟩
          · rfl
          · rfl
          · rfl
        · exact ⟨_, rfl, by simp, by simp⟩

theorem safeSign_top (target : Char) : SafeSign (fun _ => True) (· = target) (topSign target) := by
  intro depth c _
  unfold topSign
  split
  · exact ⟨_, rfl, by simp, by simp⟩
  · split
    · next hc =>
      have htarget : c = target := by simpa using (Bool.and_eq_true_iff.1 hc).1
      exact ⟨_, rfl, fun _ => htarget, by simp⟩
    · exact ⟨_, rfl, by simp, by simp⟩

theorem safeSign_closing (opening closing : Char) :
    SafeSign (0 < ·) (· = closing) (closingSign opening closing) := by
  intro depth c hpos
  unfold closingSign
  split
  · exact ⟨_, rfl, by simp, by simp⟩
  · split
    · next hc =>
      rw [checkedSub?_of_le hpos]
      refine ⟨_, rfl, fun _ => hc, fun d hd => ?_⟩
      dsimp only at hd ⊢
      split at hd
      · exact absurd hd (by simp)
      · obtain rfl := Option.some.inj hd
        omega
    · exact ⟨_, rfl, by simp, by simpa using hpos⟩

section
variable {input t r : Text} {n : Nat}

/-- The end of a statement is a boundary behind its start, in front of what ends it. -/
theorem statementEnd?_safe (nested : Bool) (h : dropBytes? input n = some t) :
    ∃ k stop r, statementEnd? nested input n = some (k, stop) ∧ Lands input n k r ∧
      r.head? = stop.char? := by
  obtain ⟨o, ho, hstop⟩ := run?_quoting_safe statementDialect true (s := (0, 0))
    (safeSign_statement nested) h trivial
  rw [statementEnd?, ho]
  cases o with
  | none => exact ⟨_, _, [], rfl, lands_byteLength h, rfl⟩
  | some p =>
      obtain ⟨hchar, r, hlands⟩ := hstop p rfl
      exact ⟨p.1, _, _, rfl, hlands, hchar.symm⟩

theorem closing?_safe (opening closing : Char) (h : dropBytes? input n = some t) :
    ∃ o, closing? opening closing input n = some o ∧
      ∀ k ∈ o, ∃ r, Lands input n k (closing :: r) := by
  obtain ⟨o, ho, hstop⟩ := run?_quoting_safe bracketDialect false (s := 1)
    (safeSign_closing opening closing) h Nat.one_pos
  rw [closing?, ho]
  refine ⟨_, rfl, fun k hk => ?_⟩
  obtain ⟨p, hp, rfl⟩ := Option.map_eq_some_iff.1 hk
  obtain ⟨hclosing, r, hlands⟩ := hstop p hp
  exact ⟨r, hclosing ▸ hlands⟩

theorem colon?_safe (t : Text) :
    ∃ o, colon? t = some o ∧ ∀ k ∈ o, ∃ r, Lands t 0 k (':' :: r) := by
  obtain ⟨o, ho, hstop⟩ := run?_quoting_safe colonDialect false (s := 0) (safeSign_top ':')
    (dropBytes?_zero (t := t)) trivial
  rw [colon?, ho]
  refine ⟨_, rfl, fun k hk => ?_⟩
  obtain ⟨p, hp, rfl⟩ := Option.map_eq_some_iff.1 hk
  obtain ⟨hcolon, r, hlands⟩ := hstop p hp
  exact ⟨r, hcolon ▸ hlands⟩

/-- A comma that is found stands before the end. -/
theorem lt_of_comma? {k : Nat} (h : comma? input n = some (some k)) :
    n < byteLength input ∧ n < k + 1 := by
  cases ht : dropBytes? input n with
  | none =>
      rw [comma?, Walk.run?_of_dropBytes?_eq_none ht] at h
      exact absurd h (by simp)
  | some t =>
      obtain ⟨o, ho, hstop⟩ := run?_quoting_safe listDialect false (s := 0) (safeSign_top ',') ht
        trivial
      rw [comma?, ho] at h
      obtain ⟨p, hp, rfl⟩ := Option.map_eq_some_iff.1 (Option.some.inj h)
      obtain ⟨-, r, hlands⟩ := hstop p hp
      have hlt := lt_byteLength_of_dropBytes? hlands.behind
      have hle := hlands.start_le
      omega

theorem commentEnd?_safe (h : commentAt input n = true) :
    ∃ k r, commentEnd? input n = some k ∧ Lands input n k r := by
  obtain ⟨r, hr⟩ := commentAt_eq_true_iff.1 h
  exact ⟨_, _, commentEnd?_of_dropBytes? hr,
    .of_dropBytes? (dropBytes?_splitComment hr).1 (Nat.le_add_right _ _)⟩

theorem utf8Size_of_isQuote {c : Char} (h : isQuote c = true) : c.utf8Size = 1 := by
  obtain rfl | rfl : c = '\'' ∨ c = '"' := by simpa [isQuote] using h
  · rfl
  · rfl

theorem quotedLength?_safe {quote : Char} (hquote : isQuote quote = true) (r : Text) :
    ∃ k u, quotedLength? quote (quote :: r) = some k ∧ Lands (quote :: r) 0 k u := by
  have hmove (s : Unit) (c : Char) (opens : Bool) (_ : True) :
      ∃ move, (quotedWalk false quote).move s c opens = some move ∧
        move.Sound (fun _ => True) (c = quote) opens := by
    refine ⟨_, rfl, ?_⟩
    split
    · trivial
    · split
      · next hc =>
        have hsought : c = quote := by simpa using hc
        exact hsought
      · trivial
  obtain ⟨o, ho, hstop⟩ := Walk.run?_safe _ hmove (dropBytes?_utf8Size quote r) (s := ()) trivial
  rw [quotedLength?, ho]
  cases o with
  | none => exact ⟨_, _, rfl, lands_byteLength dropBytes?_zero⟩
  | some p =>
      obtain ⟨hclose, u, hlands⟩ := hstop p rfl
      have hbehind := (hlands.of_le (Nat.zero_le _)).next
      rw [hclose, utf8Size_of_isQuote hquote] at hbehind
      exact ⟨_, u, rfl, hbehind⟩

/-- The first parenthesis makes the counter one, and it ends the loop when it is zero again. -/
theorem functionWalk_open (h : dropBytes? t n = some ('(' :: r)) :
    functionWalk.run? t n 0 = functionWalk.run? t (n + '('.utf8Size) 1 :=
  Walk.run?_step h rfl

theorem functionLength?_safe (h : dropBytes? t n = some ('(' :: r)) :
    ∃ k u, functionLength? t n = some k ∧ Lands t n k u := by
  have hmove (depth : Nat) (c : Char) (opens : Bool) (hpos : 0 < depth) :
      ∃ move, functionWalk.move depth c opens = some move ∧
        move.Sound (0 < ·) (c = ')') opens := by
    unfold functionWalk
    dsimp only
    split
    · exact ⟨_, rfl, Nat.succ_pos depth⟩
    · split
      · next hc =>
        rw [checkedSub?_of_le hpos]
        refine ⟨_, rfl, ?_⟩
        dsimp only
        split
        · exact hc
        · next hne => exact Nat.pos_of_ne_zero hne
      · exact ⟨_, rfl, hpos⟩
  obtain ⟨o, ho, hstop⟩ := Walk.run?_safe _ hmove (dropBytes?_next h) Nat.one_pos
  rw [functionLength?, functionWalk_open h, ho]
  cases o with
  | none => exact ⟨_, _, rfl, lands_byteLength h⟩
  | some p =>
      obtain ⟨hclose, u, hlands⟩ := hstop p rfl
      have hbehind := (hlands.of_le (Nat.le_add_right _ _)).next
      rw [hclose] at hbehind
      exact ⟨_, u, rfl, hbehind⟩

end

/-! ### They stop where the text is cut -/

theorem statementSign_plain (depth : Nat) (c : Char) :
    statementSign false (depth, 0) c =
      some (if c = '{' ∨ c = '}' ∨ depth = 0 ∧ c = ';' then none
        else some ((bracket? depth c).getD depth, 0)) := by
  unfold statementSign bracket?
  grind

theorem statementSign_nested (depth blocks : Nat) (c : Char) :
    statementSign true (depth, blocks) c =
      some (if blocks = 0 ∧ (c = '}' ∨ depth = 0 ∧ c = ';') then none
        else some ((bracket? depth c).getD depth,
          if c = '{' then blocks + 1 else if c = '}' then blocks - 1 else blocks)) := by
  unfold statementSign bracket? checkedSub?
  grind

theorem topSign_eq {target : Char} (htarget : target ∉ nestingSigns) (depth : Nat) (c : Char) :
    topSign target depth c =
      some (if depth = 0 ∧ c = target then none else some ((bracket? depth c).getD depth)) := by
  unfold nestingSigns at htarget
  unfold topSign bracket?
  grind

/-- The counter is one ahead of that of the scan, which does not count the first bracket. -/
theorem closingSign_eq {opening closing : Char} (hne : opening ≠ closing) (depth : Nat) (c : Char) :
    closingSign opening closing (depth + 1) c =
      some (if depth = 0 ∧ c = closing then none
        else some ((if c = opening then depth + 1
          else if c = closing then depth - 1 else depth) + 1)) := by
  unfold closingSign checkedSub?
  grind

theorem nesting_next {cover : Cover} (hcover : cover.exposes = true) (k : Dialect) (depth : Nat)
    (c : Char) :
    Nesting.next k ⟨cover, depth⟩ c = ⟨cover.next k c, (bracket? depth c).getD depth⟩ := by
  simp only [Nesting.next, hcover, if_true, bracket?]
  split
  · rfl
  · split <;> rfl

theorem tracks_statement :
    Tracks statementDialect (statementSign false) statementScan (fun depth => (depth, 0))
      (fun depth cover => ⟨cover, depth⟩) where
  hides depth :=
    { stops := fun c hcover => by simp [statementScan, Nesting.isTop, hcover]
      next := fun c hcover => by simp [statementScan, Nesting.next, hcover] }
  exposed depth c cover hcover := by
    refine ⟨(bracket? depth c).getD depth, ?_, fun _ => nesting_next hcover _ depth c⟩
    rw [statementSign_plain]
    simp [statementScan, Nesting.isTop, hcover, or_assoc]
  covers depth c cover hcover hc := by
    simp only [coverSigns, List.mem_cons, List.not_mem_nil, or_false] at hc
    rcases hc with rfl | rfl | rfl | rfl | rfl <;>
      simp [statementScan, nesting_next, hcover, bracket?]

theorem tracks_custom :
    Tracks statementDialect (statementSign true) customScan id
      (fun s cover => ⟨⟨cover, s.1⟩, s.2⟩) where
  hides s :=
    { stops := fun c hcover => by simp [customScan, Nesting.isTop, hcover]
      next := fun c hcover => by simp [customScan, Nesting.next, hcover] }
  exposed s c cover hcover := by
    refine ⟨((bracket? s.1 c).getD s.1,
      if c = '{' then s.2 + 1 else if c = '}' then s.2 - 1 else s.2),
      (statementSign_nested s.1 s.2 c).trans ?_, fun _ => ?_⟩
    · simp [customScan, Nesting.isTop, hcover]
    · simp [customScan, nesting_next, hcover]
  covers s c cover hcover hc := by
    simp only [coverSigns, List.mem_cons, List.not_mem_nil, or_false] at hc
    rcases hc with rfl | rfl | rfl | rfl | rfl <;>
      simp [customScan, nesting_next, hcover, bracket?]

/-- The search outside of brackets for a sign that neither is a bracket nor covers anything. -/
theorem tracks_top (k : Dialect) (target : Char) (htarget : target ∉ '*' :: nestingSigns) :
    Tracks k (topSign target) (topScan k target) id (fun depth cover => ⟨cover, depth⟩) where
  hides depth :=
    { stops := fun c hcover => by simp [topScan, Nesting.isTop, hcover]
      next := fun c hcover => by simp [topScan, Nesting.next, hcover] }
  exposed depth c cover hcover := by
    refine ⟨(bracket? depth c).getD depth, ?_, fun _ => nesting_next hcover _ depth c⟩
    rw [id, topSign_eq (fun h => htarget (List.mem_cons_of_mem _ h))]
    simp [topScan, Nesting.isTop, hcover]
  covers depth c cover hcover hc := by
    have hsigns : coverSigns ⊆ '*' :: nestingSigns := by simp [coverSigns, nestingSigns]
    have hne : c ≠ target := fun h => htarget (hsigns (h ▸ hc))
    simp only [coverSigns, List.mem_cons, List.not_mem_nil, or_false] at hc
    rcases hc with rfl | rfl | rfl | rfl | rfl <;>
      simp [topScan, nesting_next, hcover, bracket?, hne]

theorem tracks_closing {opening closing : Char} (hne : opening ≠ closing)
    (hopening : opening ∉ coverSigns) (hclosing : closing ∉ coverSigns) :
    Tracks bracketDialect (closingSign opening closing) (closingScan opening closing) (· + 1)
      (fun depth cover => ⟨cover, depth⟩) where
  hides depth :=
    { stops := fun c hcover => by simp [closingScan, Nesting.isTop, hcover]
      next := fun c hcover => by simp [closingScan, hcover] }
  exposed depth c cover hcover := by
    refine ⟨if c = opening then depth + 1 else if c = closing then depth - 1 else depth,
      (closingSign_eq hne depth c).trans ?_, fun _ => ?_⟩
    · simp [closingScan, Nesting.isTop, hcover]
    · simp [closingScan, hcover]
  covers depth c cover hcover hc := by
    have hopen : c ≠ opening := fun h => hopening (h ▸ hc)
    have hclose : c ≠ closing := fun h => hclosing (h ▸ hc)
    simp [closingScan, hcover, hopen, hclose]

section
variable {input t r : Text} {n : Nat}

/-- A loop for the end of a statement that stops where `p` is cut returns this place. -/
theorem statementEnd?_of_run? {nested : Bool} {p : Text × Text}
    (h : dropBytes? input n = some (p.1 ++ p.2))
    (hrun : (quoting statementDialect true (statementSign nested)).run? input n (none, (0, 0)) =
      some (cutAt n p)) :
    statementEnd? nested input n = some (n + byteLength p.1, .ofText p.2) := by
  have hlength := add_byteLength_of_dropBytes? h
  obtain ⟨u, _ | ⟨c, r⟩⟩ := p
  · simp only [List.append_nil] at hlength
    simp [statementEnd?, hrun, cutAt, hlength, Terminator.ofText]
  · simp [statementEnd?, hrun, cutAt, Terminator.ofText]

theorem statementEnd?_plain (h : dropBytes? input n = some t) :
    statementEnd? false input n =
      some (n + byteLength (cutStatement t).1, .ofText (cutStatement t).2) :=
  statementEnd?_of_run? (by rwa [cutStatement_append])
    (tracks_statement.run?_eq true (a := 0) h (.outside (.inl rfl)))

theorem statementEnd?_nested (h : dropBytes? input n = some t) :
    statementEnd? true input n =
      some (n + byteLength (cutCustomProperty t).1, .ofText (cutCustomProperty t).2) :=
  statementEnd?_of_run? (by rwa [cutCustomProperty_append])
    (tracks_custom.run?_eq true (a := (0, 0)) h (.outside (.inl rfl)))

theorem colon?_eq (t : Text) :
    colon? t = some ((cutAt 0 (cutAtTop colonDialect ':' t)).map Prod.fst) := by
  have hrun := (tracks_top colonDialect ':' (by decide)).run?_eq false (a := 0)
    (dropBytes?_zero (t := t)) (.outside (.inl rfl))
  rw [colon?, show (quoting colonDialect false (topSign ':')).run? t 0 (none, 0) = _ from hrun]
  rfl

theorem comma?_eq (h : dropBytes? input n = some t) :
    comma? input n = some ((cutAt n (cutAtTop listDialect ',' t)).map Prod.fst) := by
  have hrun := (tracks_top listDialect ',' (by decide)).run?_eq false (a := 0)
    h (.outside (.inl rfl))
  rw [comma?, show (quoting listDialect false (topSign ',')).run? input n (none, 0) = _ from hrun]
  rfl

theorem closing?_eq (opening closing : Char) (hne : opening ≠ closing)
    (hopening : opening ∉ coverSigns) (hclosing : closing ∉ coverSigns)
    (h : dropBytes? input n = some t) :
    closing? opening closing input n =
      some ((splitClosing? opening closing t).map fun p => n + byteLength p.1) := by
  have hrun := (tracks_closing hne hopening hclosing).run?_eq false (a := 0) h
    (.outside (.inl rfl))
  rw [closing?, show (quoting bracketDialect false (closingSign opening closing)).run? input n
    (none, 1) = _ from hrun, splitClosing?_eq_cut]
  rcases (closingScan opening closing).cut {} t with ⟨u, _ | ⟨c, r⟩⟩ <;> rfl

theorem quotedWalk_run? (line : Bool) {quote : Char} (hquote : isQuote quote = true)
    (h : dropBytes? input n = some t) :
    (quotedWalk line quote).run? input n () =
      some (cutAt n ((stringScan line quote).cut false t)) := by
  have hback : (stringScan line quote).stops false '\\' = false := by
    obtain rfl | rfl : quote = '\'' ∨ quote = '"' := by simpa [isQuote] using hquote
    · cases line <;> rfl
    · cases line <;> rfl
  induction hlength : t.length using Nat.strongRecOn generalizing t n with
  | _ _ ih =>
  subst hlength
  cases t with
  | nil => exact Walk.run?_nil h
  | cons c r =>
      by_cases hc : c = '\\'
      · subst hc
        cases r with
        | nil =>
            rw [Walk.run?_pair_nil h rfl, Scan.cut_cons hback]
            rfl
        | cons d r =>
            have hlt : r.length < ('\\' :: d :: r).length := by
              simp only [List.length_cons]
              omega
            have hrest := ih _ hlt (dropBytes?_add (u := ['\\', d]) h) rfl
            rw [Walk.run?_pair h rfl, hrest, ← cutAt_append, Scan.cut_cons hback,
              Scan.cut_cons (by simp [stringScan])]
            simp [stringScan]
      · have hmove (opens : Bool) : (quotedWalk line quote).move () c opens =
            some (if (stringScan line quote).stops false c then .stop else .step ()) := by
          simp [quotedWalk, stringScan, hc]
        cases hstop : (stringScan line quote).stops false c with
        | true =>
            rw [Walk.run?_stop h (by rw [hmove, if_pos hstop]), Scan.cut, if_pos hstop]
            rfl
        | false =>
            have hrest := ih _ (by simp) (dropBytes?_add (u := [c]) h) rfl
            rw [Walk.run?_step h (by rw [hmove, if_neg (by simp [hstop])]), Scan.cut_cons hstop]
            refine hrest.trans ?_
            rw [← cutAt_append]
            simp [stringScan, hc]

theorem quotedLength?_eq {quote : Char} (hquote : isQuote quote = true) (r : Text) :
    quotedLength? quote (quote :: r) =
      some (byteLength (quote :: (splitString false quote r).1)) := by
  have hone := utf8Size_of_isQuote hquote
  rw [quotedLength?, quotedWalk_run? false hquote (dropBytes?_utf8Size quote r), splitString]
  rcases hcut : (stringScan false quote).cut false r with ⟨u, _ | ⟨c, v⟩⟩
  · obtain ⟨rfl, -⟩ := Scan.cut_eq_nil_iff.1 hcut
    rfl
  · obtain ⟨-, -, hstop⟩ := Scan.cut_eq_cons_iff.1 hcut
    obtain ⟨-, rfl⟩ : _ ∧ c = quote := by simpa [stringScan] using hstop
    simp [cutAt, hone]
    omega

theorem functionWalk_run? {depth : Nat} (h : dropBytes? input n = some t) :
    functionWalk.run? input n (depth + 1) = some (cutAt n (functionScan.cut depth t)) := by
  induction t generalizing n depth with
  | nil => exact Walk.run?_nil h
  | cons c r ih =>
      have hmove (opens : Bool) : functionWalk.move (depth + 1) c opens =
          some (if functionScan.stops depth c then .stop
            else .step (functionScan.next depth c + 1)) := by
        simp only [functionWalk, functionScan, checkedSub?]
        grind
      cases hstop : functionScan.stops depth c with
      | true =>
          rw [Walk.run?_stop h (by rw [hmove, if_pos hstop]), Scan.cut, if_pos hstop]
          rfl
      | false =>
          rw [Walk.run?_step h (by rw [hmove, if_neg (by simp [hstop])]),
            ih (dropBytes?_next h), Scan.cut_cons hstop]
          exact congrArg some (cutAt_append n [c] _).symm

theorem functionLength?_eq (h : dropBytes? t n = some ('(' :: r)) :
    functionLength? t n = some (n + byteLength ('(' :: (splitFunction r).1)) := by
  have hlength := add_byteLength_of_dropBytes? h
  have hone : '('.utf8Size = 1 ∧ ')'.utf8Size = 1 := ⟨rfl, rfl⟩
  rw [functionLength?, functionWalk_open h, functionWalk_run? (dropBytes?_next h), splitFunction,
    Scan.through]
  rcases hcut : functionScan.cut 0 r with ⟨u, _ | ⟨c, v⟩⟩
  · obtain ⟨rfl, -⟩ := Scan.cut_eq_nil_iff.1 hcut
    simpa [cutAt] using hlength.symm
  · obtain ⟨-, -, hstop⟩ := Scan.cut_eq_cons_iff.1 hcut
    obtain ⟨rfl, -⟩ : c = ')' ∧ _ := by simpa [functionScan] using hstop
    simp [cutAt, hone]
    omega

end
end StyleScope.Offsets
