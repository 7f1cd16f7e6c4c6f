import StyleScope.Proofs.Offsets.Scanners

/-! # Values and lists cut at offsets

The members of a selector list, the content of a quoted text and the tokens of a value, taken by
slicing the text at the offsets that the scanners return. Each of them has a result for any text,
and it is the one that reading character by character gives.
-/
namespace StyleScope.Offsets
open Text Selector Animation

section
variable {input t r : Text} {n : Nat} {c : Char}

/-! ### Members of a selector list -/

/-- The members of a list from `n` on. At a comma the loop has no open string and no open bracket,
as at the start. -/
def membersFrom? (input : Text) (n : Nat) : Option (List Text) := do
  match _h : comma? input n with
  | none => none
  | some none => return [← dropBytes? input n]
  | some (some k) => return (← slice? input n k) :: (← membersFrom? input (k + 1))
termination_by byteLength input - n
decreasing_by
  obtain ⟨hlt, hgo⟩ := lt_of_comma? _h
  exact Nat.sub_lt_sub_left hlt hgo

theorem membersFrom?_eq (h : dropBytes? input n = some t) :
    membersFrom? input n = some (members t) := by
  induction hlength : t.length using Nat.strongRecOn generalizing t n with
  | _ _ ih =>
  subst hlength
  have happ := (topScan listDialect ',').cut_append {} t
  change (cutAtTop listDialect ',' t).1 ++ (cutAtTop listDialect ',' t).2 = t at happ
  rw [membersFrom?, comma?_eq h, members]
  rcases hcut : cutAtTop listDialect ',' t with ⟨m, _ | ⟨c, rest⟩⟩
  · rw [hcut, List.append_nil] at happ
    simp [cutAt, h, ← happ]
  · have hcomma : c = ',' := cutAtTop_snd_head (r := rest) (by rw [hcut])
    rw [hcut, hcomma] at happ
    rw [← happ] at h
    have hbehind : dropBytes? input (n + byteLength m + 1) = some rest :=
      dropBytes?_next (dropBytes?_add h)
    have hlt : rest.length < t.length := by
      rw [← happ, List.length_append, List.length_cons]
      omega
    simp [cutAt, slice?_of_dropBytes? h, ih _ hlt hbehind rfl]

/-! ### Quoted texts -/

/-- The quote around a text and its content, or no quote and the text. -/
def unquoted? (t : Text) : Option (Option Char × Text) := do
  match t.head?, t.getLast? with
  | some first, some last =>
    if isQuote first && first = last && 2 ≤ byteLength t then
      return (some first, ← slice? t 1 (← checkedSub? (byteLength t) 1))
    else return (none, t)
  | _, _ => return (none, t)

theorem unquoted?_eq (t : Text) :
    unquoted? t =
      some (((unquote? t).map fun p => (some p.1, p.2)).getD (none, t)) := by
  rcases t with _ | ⟨q, r⟩
  · rfl
  rcases List.eq_nil_or_concat r with rfl | ⟨content, last, rfl⟩
  · by_cases hq : isQuote q = true
    · simp [unquoted?, unquote?, utf8Size_of_isQuote hq]
    · simp [unquoted?, unquote?, hq]
  · have hlast : (q :: (content ++ [last])).getLast? = some last :=
      List.getLast?_concat (l := q :: content)
    by_cases hquoted : isQuote q = true ∧ q = last
    · obtain ⟨hq, rfl⟩ := hquoted
      have hone := utf8Size_of_isQuote hq
      have hslice : slice? (q :: (content ++ [q])) 1 (1 + byteLength content) = some content := by
        refine slice?_of_dropBytes? (r := [q]) ?_
        rw [← hone]
        exact dropBytes?_utf8Size q _
      have hlength : byteLength (q :: (content ++ [q])) = 1 + byteLength content + 1 := by
        simp [hone]
        omega
      simp [unquoted?, unquote?, hlast, hq, hlength, checkedSub?, hslice]
    · simp [unquoted?, unquote?, hlast, hquoted, eq_comm (a := last)]

/-! ### Tokens of a value -/

def wordEnd? (t : Text) : Option Nat :=
  seek? (fun c opens => isSpace c || c = ',' || isQuote c || c = '(' || opens) t 0

theorem wordEnd?_eq (t : Text) : wordEnd? t = some (byteLength (splitWord t).1) := by
  rw [wordEnd?, seek?_eq (fun t => (splitWord t).1) rfl (fun c r => ?_) dropBytes?_zero,
    Nat.zero_add]
  · simp only [splitWord]
    split <;> rfl

/-- The token that reaches from the start of the text to the offset `k`. -/
def tokenTo? (make : Text → ValueToken) (t : Text) (k : Nat) : Option (ValueToken × Nat) := do
  return (make (← slice? t 0 k), k)

theorem tokenTo?_eq (make : Text → ValueToken) {u v : Text} (h : u ++ v = t) :
    tokenTo? make t (byteLength u) = some (make u, byteLength u) := by
  have hslice : slice? t 0 (0 + byteLength u) = some u :=
    slice?_of_dropBytes? (r := v) (h.symm ▸ dropBytes?_zero)
  rw [Nat.zero_add] at hslice
  rw [tokenTo?, hslice]
  rfl

/-- The first token of the value `c :: r` and its length. -/
def valueToken? (c : Char) (r : Text) : Option (ValueToken × Nat) := do
  if commentAt (c :: r) 0 then tokenTo? .comment (c :: r) (← commentEnd? (c :: r) 0)
  else if isSpace c then tokenTo? .space (c :: r) (← skipWhile? isSpace (c :: r) 0)
  else if c = ',' then return (.comma, 1)
  else if isQuote c then tokenTo? .quoted (c :: r) (← quotedLength? c (c :: r))
  else
    let word ← wordEnd? (c :: r)
    if (← dropBytes? (c :: r) word).head? = some '(' then
      tokenTo? .function (c :: r) (← functionLength? (c :: r) word)
    else if word = 0 then tokenTo? .other (c :: r) c.utf8Size
    else tokenTo? .word (c :: r) word

/-- A word, the function that it names, or a character that starts neither. -/
theorem valueToken?_word (hcomment : commentAt (c :: r) 0 = false) (hspace : isSpace c = false)
    (hcomma : c ≠ ',') (hquote : isQuote c = false) :
    valueToken? c r =
      some ((ValueToken.readWord c r).1, byteLength (ValueToken.readWord c r).1.text) := by
  have happ := splitWord_append (c :: r)
  have hword : dropBytes? (c :: r) (byteLength (splitWord (c :: r)).1) =
      some (splitWord (c :: r)).2 :=
    dropBytes?_eq_some_iff.2 ⟨_, happ.symm, rfl⟩
  rw [valueToken?, hcomment, hspace, hquote, if_neg hcomma, wordEnd?_eq, ValueToken.readWord]
  simp only [Bool.false_eq_true, if_false, Option.bind_eq_bind, Option.bind_some, hword]
  generalize splitWord (c :: r) = p at happ hword
  obtain ⟨word, rest⟩ := p
  dsimp only at happ hword ⊢
  by_cases hparen : rest.head? = some '('
  · obtain ⟨body, rfl⟩ := List.head?_eq_some_iff.1 hparen
    rw [if_pos hparen, functionLength?_eq hword, ← byteLength_append, Option.bind_some]
    exact tokenTo?_eq _ (v := (splitFunction body).2) (by simpa using happ)
  · have hrest (body : Text) : rest ≠ '(' :: body := by
      rintro rfl
      exact hparen rfl
    rw [if_neg hparen]
    cases word with
    | nil =>
        rw [byteLength_nil, if_pos rfl]
        simpa [hrest, ValueToken.text] using tokenTo?_eq .other (u := [c]) (v := r) rfl
    | cons d word =>
        have hpos := d.utf8Size_pos
        rw [if_neg (by rw [byteLength_cons]; omega), tokenTo?_eq .word happ]
        simp [ValueToken.text]

theorem valueToken?_eq (c : Char) (r : Text) :
    valueToken? c r =
      some ((ValueToken.read c r).1, byteLength (ValueToken.read c r).1.text) := by
  have hzero := dropBytes?_zero (t := c :: r)
  cases hopens : startsComment (c :: r) with
  | true =>
      obtain ⟨body, hbody⟩ := startsComment_eq_true_iff.1 hopens
      obtain ⟨rfl, rfl⟩ := List.cons.inj hbody
      rw [valueToken?, if_pos (commentAt_eq_true_iff.2 ⟨body, hzero⟩),
        commentEnd?_of_dropBytes? hzero, Nat.zero_add]
      exact tokenTo?_eq .comment (v := (splitComment body).2) (by simp)
  | false =>
      have hcomment : commentAt (c :: r) 0 = false := by simpa [commentAt] using hopens
      rw [ValueToken.read, comment?_eq_none_iff.2 hopens]
      dsimp only
      cases hspace : isSpace c with
      | true =>
          have htoken := tokenTo?_eq .space
            (List.takeWhile_append_dropWhile (p := isSpace) (l := c :: r))
          rw [valueToken?, hcomment, hspace, skipWhile?_eq isSpace hzero, Nat.zero_add]
          rwa [List.takeWhile_cons_of_pos hspace] at htoken ⊢
      | false =>
          by_cases hcomma : c = ','
          · subst hcomma
            rw [valueToken?, hcomment]
            rfl
          · cases hquote : isQuote c with
            | true =>
                rw [valueToken?, hcomment, hspace, hquote, if_neg hcomma, if_neg hcomma,
                  quotedLength?_eq hquote]
                exact tokenTo?_eq .quoted (v := (splitString false c r).2) (by simp)
            | false =>
                rw [if_neg hcomma]
                exact valueToken?_word hcomment hspace hcomma hquote

theorem dropBytes?_valueToken? {x : ValueToken} {k : Nat} (h : valueToken? c r = some (x, k)) :
    dropBytes? (c :: r) k = some (ValueToken.read c r).2 := by
  rw [valueToken?_eq] at h
  obtain ⟨-, rfl⟩ := Prod.mk.inj (Option.some.inj h)
  exact dropBytes?_eq_some_iff.2 ⟨_, (ValueToken.takes_read c r).1.symm, rfl⟩

/-- The tokens of a value; behind each of them the value is sliced anew. -/
def valueTokensOf? : Text → Option (List ValueToken)
  | [] => some []
  | c :: r =>
    match _h : valueToken? c r with
    | none => none
    | some (x, k) =>
      match _hrest : dropBytes? (c :: r) k with
      | none => none
      | some rest => (valueTokensOf? rest).map (x :: ·)
termination_by t => t.length
decreasing_by
  obtain rfl := Option.some.inj (_hrest.symm.trans (dropBytes?_valueToken? _h))
  exact ValueToken.length_read_rest rfl

theorem valueTokensOf?_eq (t : Text) : valueTokensOf? t = some (valueTokens t) := by
  fun_induction valueTokens t with
  | case1 => rw [valueTokensOf?]
  | case2 c r x rest hread ih =>
      have htoken := valueToken?_eq c r
      have hrest := dropBytes?_valueToken? htoken
      rw [hread] at htoken hrest
      dsimp only at htoken hrest
      rw [valueTokensOf?, htoken]
      dsimp only
      rw [hrest]
      dsimp only
      rw [ih]
      rfl

end
end StyleScope.Offsets
