import StyleScope.Proofs.Offsets.Scanners
import StyleScope.Proofs.Selector.Names
import StyleScope.Selector.Lexeme

/-! # Selectors read at offsets

A selector is read with one offset into it. At each place the kinds of lexemes are tried in turn,
and an attempt that fails leaves the offset where it was; when all have failed, a character is taken
as it is. The arguments of a pseudo selector are sliced out and read as a selector of their own.

Each attempt has a result for any text, it succeeds just when the text starts with such a lexeme,
and it moves the offset by the length of the lexeme (`found`). So reading at offsets always comes
to the end and gives the fragments of the text (`fragmentsFrom?_eq`).
-/
namespace StyleScope.Offsets
open Text Selector

/-! ### Steps of the offset -/

/-- The offset behind the character at `n`, if there is one. -/
def advance? (input : Text) (n : Nat) : Option Nat := do
  match ← dropBytes? input n with
  | [] => return n
  | c :: _ => return n + c.utf8Size

/-- The offset behind `sign`, if it stands at `n`. -/
def eat? (sign : Char) (input : Text) (n : Nat) : Option (Option Nat) := do
  if (← dropBytes? input n).head? = some sign then return some (← advance? input n)
  else return none

/-- The offset behind a character of a name, or behind a backslash and what follows it. -/
def nameChar? (p : Char → Bool) (input : Text) (n : Nat) : Option (Option Nat) := do
  match ← dropBytes? input n with
  | [] => return none
  | c :: _ =>
    if c = '\\' then
      if byteLength input ≤ n + 1 then return none
      else return some (← advance? input (← advance? input n))
    else if p c then return some (← advance? input n)
    else return none

section
variable {input t r : Text} {n : Nat} {c d : Char}

theorem advance?_cons (h : dropBytes? input n = some (c :: r)) :
    advance? input n = some (n + c.utf8Size) := by
  rw [advance?, h]
  rfl

theorem eat?_eq (sign : Char) (h : dropBytes? input n = some t) :
    eat? sign input n = some (if t.head? = some sign then some (n + sign.utf8Size) else none) := by
  rw [eat?, h]
  simp only [Option.bind_eq_bind, Option.bind_some]
  split
  · next hhead =>
    obtain ⟨r, rfl⟩ := List.head?_eq_some_iff.1 hhead
    rw [advance?_cons h]
    rfl
  · rfl

theorem lt_of_eat? {sign : Char} {k : Nat} (h : eat? sign input n = some (some k)) :
    n < byteLength input ∧ n < k := by
  cases ht : dropBytes? input n with
  | none =>
      rw [eat?, ht] at h
      exact absurd h (by simp)
  | some t =>
      rw [eat?_eq sign ht] at h
      have hk := Option.some.inj h
      split at hk
      · next hhead =>
        obtain ⟨r, rfl⟩ := List.head?_eq_some_iff.1 hhead
        obtain rfl := Option.some.inj hk
        have hpos := sign.utf8Size_pos
        exact ⟨lt_byteLength_of_dropBytes? ht, by omega⟩
      · exact absurd hk (by simp)

theorem nameChar?_nil {p : Char → Bool} (h : dropBytes? input n = some []) :
    nameChar? p input n = some none := by
  rw [nameChar?, h]
  rfl

theorem nameChar?_backslash {p : Char → Bool} (h : dropBytes? input n = some ['\\']) :
    nameChar? p input n = some none := by
  have hlength : n + 1 = byteLength input := add_byteLength_of_dropBytes? h
  rw [nameChar?, h]
  simp [hlength]

theorem nameChar?_escape {p : Char → Bool} (h : dropBytes? input n = some ('\\' :: d :: r)) :
    nameChar? p input n = some (some (n + byteLength ['\\', d])) := by
  have hlength := add_byteLength_of_dropBytes? h
  have hpos := d.utf8Size_pos
  have hlt : ¬byteLength input ≤ n + 1 := by
    rw [← hlength, byteLength_cons, byteLength_cons, show '\\'.utf8Size = 1 from rfl]
    omega
  rw [nameChar?, h]
  simp [hlt, advance?_cons h, advance?_cons (dropBytes?_next h), Nat.add_assoc]

theorem nameChar?_cons {p : Char → Bool} (h : dropBytes? input n = some (c :: r))
    (hback : c ≠ '\\') :
    nameChar? p input n = some (if p c then some (n + c.utf8Size) else none) := by
  rw [nameChar?, h]
  simp only [Option.bind_eq_bind, Option.bind_some, if_neg hback, advance?_cons h]
  split <;> rfl

theorem lt_of_nameChar? {p : Char → Bool} {k : Nat} (h : nameChar? p input n = some (some k)) :
    n < byteLength input ∧ n < k := by
  cases ht : dropBytes? input n with
  | none =>
      rw [nameChar?, ht] at h
      exact absurd h (by simp)
  | some t =>
      rcases t with _ | ⟨c, r⟩
      · rw [nameChar?_nil ht] at h
        exact absurd h (by simp)
      have hpos := c.utf8Size_pos
      refine ⟨lt_byteLength_of_dropBytes? ht, ?_⟩
      by_cases hback : c = '\\'
      · subst hback
        cases r with
        | nil =>
            rw [nameChar?_backslash ht] at h
            exact absurd h (by simp)
        | cons d r =>
            rw [nameChar?_escape ht, byteLength_cons] at h
            obtain rfl := Option.some.inj (Option.some.inj h)
            omega
      · rw [nameChar?_cons ht hback] at h
        have hk := Option.some.inj h
        split at hk
        · obtain rfl := Option.some.inj hk
          omega
        · exact absurd hk (by simp)

end

/-- The offset behind the characters that continue a name. -/
def nameTailEnd? (input : Text) (n : Nat) : Option Nat :=
  match _h : nameChar? isNamePart input n with
  | none => none
  | some none => some n
  | some (some k) => nameTailEnd? input k
termination_by byteLength input - n
decreasing_by
  obtain ⟨hlt, hgo⟩ := lt_of_nameChar? _h
  exact Nat.sub_lt_sub_left hlt hgo

/-- The offset behind the name that starts at `n`, its optional hyphen being read already. -/
def nameBodyEnd? (input : Text) (n : Nat) : Option (Option Nat) := do
  match ← nameChar? isNameStart input n with
  | some k => return some (← nameTailEnd? input k)
  | none => return none

def nameEnd? (input : Text) (n : Nat) : Option (Option Nat) := do
  nameBodyEnd? input ((← eat? '-' input n).getD n)

section
variable {input t r : Text} {n : Nat} {c d : Char}

theorem nameTailEnd?_stop (h : nameChar? isNamePart input n = some none) :
    nameTailEnd? input n = some (n + byteLength []) := by
  rw [nameTailEnd?, h]
  rfl

theorem nameTailEnd?_step {k : Nat} (h : nameChar? isNamePart input n = some (some k)) :
    nameTailEnd? input n = nameTailEnd? input k := by
  rw [nameTailEnd?, h]

/-- A character other than a backslash continues a name or ends it, whatever follows. -/
theorem nameTail_cons (hback : c ≠ '\\') (r : Text) :
    nameTail (c :: r) =
      if isNamePart c then (c :: (nameTail r).1, (nameTail r).2) else ([], c :: r) := by
  cases r with
  | nil => simp [nameTail]
  | cons d r => simp [nameTail, hback]

theorem nameTailEnd?_eq (h : dropBytes? input n = some t) :
    nameTailEnd? input n = some (n + byteLength (nameTail t).1) := by
  induction hlength : t.length using Nat.strongRecOn generalizing t n with
  | _ _ ih =>
  subst hlength
  rcases t with _ | ⟨c, r⟩
  · exact nameTailEnd?_stop (nameChar?_nil h)
  by_cases hback : c = '\\'
  · subst hback
    cases r with
    | nil => exact nameTailEnd?_stop (nameChar?_backslash h)
    | cons d r =>
        have hlt : r.length < ('\\' :: d :: r).length := by
          simp only [List.length_cons]
          omega
        have hrest := ih _ hlt (dropBytes?_add (u := ['\\', d]) h) rfl
        rw [nameTailEnd?_step (nameChar?_escape h), hrest, Nat.add_assoc, ← byteLength_append]
        rfl
  · have hchar := nameChar?_cons (p := isNamePart) h hback
    rw [nameTail_cons hback]
    cases hc : isNamePart c with
    | false =>
        rw [hc] at hchar
        exact nameTailEnd?_stop hchar
    | true =>
        rw [hc] at hchar
        rw [nameTailEnd?_step hchar, ih _ (by simp) (dropBytes?_next h) rfl, Nat.add_assoc]
        rfl

theorem nameChar?_nameHead? (h : dropBytes? input n = some t) :
    nameChar? isNameStart input n = some ((nameHead? t).map fun p => n + byteLength p.1) := by
  rcases t with _ | ⟨c, r⟩
  · exact nameChar?_nil h
  by_cases hback : c = '\\'
  · subst hback
    cases r with
    | nil => exact nameChar?_backslash h
    | cons d r => exact nameChar?_escape h
  · rw [nameChar?_cons h hback]
    cases r with
    | nil =>
        rw [nameHead?]
        split <;> rfl
    | cons d r =>
        rw [nameHead?, if_neg hback]
        split <;> rfl

theorem nameBodyEnd?_eq (h : dropBytes? input n = some t) :
    nameBodyEnd? input n = some ((nameBody? t).map fun p => n + byteLength p.1) := by
  rw [nameBodyEnd?, nameChar?_nameHead? h, nameBody?]
  cases hhead : nameHead? t with
  | none => rfl
  | some p =>
      have hrest := dropBytes?_of_append h (nameHead?_append hhead).1
      simp [nameTailEnd?_eq hrest, Nat.add_assoc]

theorem nameEnd?_eq (h : dropBytes? input n = some t) :
    nameEnd? input n = some ((name? t).map fun p => n + byteLength p.1) := by
  rw [nameEnd?, eat?_eq '-' h]
  simp only [Option.bind_eq_bind, Option.bind_some]
  split
  · next hhead =>
    obtain ⟨r, rfl⟩ := List.head?_eq_some_iff.1 hhead
    rw [Option.getD_some, nameBodyEnd?_eq (dropBytes?_next h), name?, Option.map_map]
    congr 2
    funext p
    exact Nat.add_assoc _ _ _
  · next hhead => rw [Option.getD_none, nameBodyEnd?_eq h, name?_of_head_ne hhead]

/-! ### Attempts -/

/-- The fragment that `make` makes of the text from `n` to `k`. -/
def leafTo? (make : Text → Fragment) (input : Text) (n k : Nat) : Option (Lexeme × Nat) := do
  return (.leaf (make (← slice? input n k)), k)

def identifierAt? (input : Text) (n : Nat) : Option (Option (Lexeme × Nat)) := do
  match ← nameEnd? input n with
  | some k => return some (← leafTo? .identifier input n k)
  | none => return none

/-- A name behind `sign`. -/
def signedAt? (make : Text → Fragment) (sign : Char) (input : Text) (n : Nat) :
    Option (Option (Lexeme × Nat)) := do
  match ← eat? sign input n with
  | none => return none
  | some start =>
    match ← nameEnd? input start with
    | some k => return some (← leafTo? make input start k)
    | none => return none

def attributeAt? (input : Text) (n : Nat) : Option (Option (Lexeme × Nat)) := do
  if (← dropBytes? input n).head? = some '[' then
    match ← closing? '[' ']' input (n + 1) with
    | some k => return some (← leafTo? .attr input n (k + 1))
    | none => return none
  else return none

/-- The number of colons at `n`, added to `count`, and the offset behind them. -/
def colons? (input : Text) (n count : Nat) : Option (Nat × Nat) :=
  match _h : eat? ':' input n with
  | none => none
  | some none => some (count, n)
  | some (some k) => colons? input k (count + 1)
termination_by byteLength input - n
decreasing_by
  obtain ⟨hlt, hgo⟩ := lt_of_eat? _h
  exact Nat.sub_lt_sub_left hlt hgo

/-- What stands at `n` behind the name of a pseudo selector. -/
def argumentsAt? (colons : Nat) (name input : Text) (n : Nat) : Option (Lexeme × Nat) := do
  match ← eat? '(' input n with
  | none => return (.leaf (.pseudo colons name), n)
  | some start =>
    match ← closing? '(' ')' input start with
    | some k => return (.call colons name (← slice? input start k) true, k + 1)
    | none => return (.call colons name (← dropBytes? input start) false, byteLength input)

def pseudoAt? (input : Text) (n : Nat) : Option (Option (Lexeme × Nat)) := do
  let (colons, start) ← colons? input n 0
  if colons = 0 then return none
  else
    match ← nameEnd? input start with
    | some k => return some (← argumentsAt? colons (← slice? input start k) input k)
    | none => return none

def combinatorAt? (input : Text) (n : Nat) : Option (Option (Lexeme × Nat)) := do
  let k ← skipWhile? isSpace input n
  if (← dropBytes? input k).head?.any isCombinator then
    return some (← leafTo? .combinator input n (← skipWhile? isSpace input (← advance? input k)))
  else return none

def universalAt? (input : Text) (n : Nat) : Option (Option (Lexeme × Nat)) := do
  return (← eat? '*' input n).map fun k => (.leaf .universal, k)

def spaceAt? (input : Text) (n : Nat) : Option (Option (Lexeme × Nat)) := do
  let k ← skipWhile? isSpace input n
  if n < k then return some (← leafTo? .whitespace input n k) else return none

/-- The end of a string that opens before `n`; a newline ends it without being part of it. -/
def stringEnd? (quote : Char) (input : Text) (n : Nat) : Option Nat := do
  match ← (quotedWalk true quote).run? input n () with
  | some (k, c) => if c = quote then advance? input k else return k
  | none => return byteLength input

def stringAt? (input : Text) (n : Nat) : Option (Option (Lexeme × Nat)) := do
  match ← dropBytes? input n with
  | [] => return none
  | quote :: _ =>
    if isQuote quote then
      return some (← leafTo? .string input n (← stringEnd? quote input (← advance? input n)))
    else return none

def remarkAt? (input : Text) (n : Nat) : Option (Option (Lexeme × Nat)) := do
  if startsComment (← dropBytes? input n) then
    return some (← leafTo? .comment input n (← commentEnd? input n))
  else return none

def rawAt? (input : Text) (n : Nat) : Option (Lexeme × Nat) := do
  leafTo? .raw input n (← advance? input n)

/-- The first attempt that succeeds; the later ones are not made. -/
def firstOf? {α : Type} : List (Option (Option α)) → Option (Option α)
  | [] => some none
  | attempt :: attempts => do
    match ← attempt with
    | some x => return some x
    | none => firstOf? attempts

def attemptsAt (input : Text) (n : Nat) : List (Option (Option (Lexeme × Nat))) :=
  [identifierAt? input n, signedAt? .className '.' input n, signedAt? .id '#' input n,
    attributeAt? input n, pseudoAt? input n, combinatorAt? input n, universalAt? input n,
    spaceAt? input n, stringAt? input n, remarkAt? input n]

def lexemeAt? (input : Text) (n : Nat) : Option (Lexeme × Nat) := do
  match ← firstOf? (attemptsAt input n) with
  | some x => return x
  | none => rawAt? input n

/-! ### What they find -/

/-- A lexeme that is read at `n`, and the offset behind it. -/
def located (n : Nat) (x : Lexeme) : Lexeme × Nat := (x, n + byteLength x.text)

/-- What an attempt returns at `n` where a lexeme is read in front of some text, or nothing. -/
def found (n : Nat) (o : Option (Lexeme × Text)) : Option (Option (Lexeme × Nat)) :=
  some (o.map fun p => located n p.1)

theorem located_eq {x : Lexeme} {k : Nat} (h : n + byteLength x.text = k) :
    located n x = (x, k) := by
  rw [located, h]

theorem leafTo?_eq (make : Text → Fragment) (hmake : ∀ u, (make u).text = u) {u v : Text}
    {k : Nat} (h : dropBytes? input n = some t) (happ : u ++ v = t)
    (hk : n + byteLength u = k) :
    leafTo? make input n k = some (located n (.leaf (make u))) := by
  subst hk
  rw [leafTo?, slice?_of_append h happ, located, Lexeme.text, hmake]
  rfl

theorem identifierAt?_eq (h : dropBytes? input n = some t) :
    identifierAt? input n =
      found n ((name? t).map fun p => (.leaf (.identifier p.1), p.2)) := by
  rw [identifierAt?, nameEnd?_eq h]
  cases hname : name? t with
  | none => rfl
  | some p =>
      have hleaf := leafTo?_eq .identifier (by simp) h (name?_append hname).1 rfl
      simp [found, hleaf]

theorem signedAt?_eq {make : Text → Fragment} {sign : Char}
    (hmake : ∀ name, (make name).text = sign :: name) (h : dropBytes? input n = some (c :: r)) :
    signedAt? make sign input n =
      found n (if c = sign then (name? r).map fun p => (.leaf (make p.1), p.2) else none) := by
  rw [signedAt?, eat?_eq sign h]
  by_cases hc : c = sign
  · subst hc
    have hnext := dropBytes?_next h
    cases hname : name? r with
    | none => simp [found, nameEnd?_eq hnext, hname]
    | some p =>
        have hslice := slice?_of_append hnext (name?_append hname).1
        simp [found, located, leafTo?, nameEnd?_eq hnext, hname, hslice, Lexeme.text, hmake,
          ← Nat.add_assoc]
  · simp [found, hc]

theorem attributeAt?_eq (h : dropBytes? input n = some (c :: r)) :
    attributeAt? input n =
      found n (if c = '[' then
        (splitClosing? '[' ']' r).map fun p => (.leaf (.attr ('[' :: (p.1 ++ [']']))), p.2)
      else none) := by
  rw [attributeAt?, h]
  by_cases hc : c = '['
  · subst hc
    have hsign : '['.utf8Size = 1 ∧ ']'.utf8Size = 1 := ⟨rfl, rfl⟩
    have hnext : dropBytes? input (n + 1) = some r := dropBytes?_next h
    have hclosing := closing?_eq '[' ']' (by decide) (by decide)
      (by decide) hnext
    cases hsplit : splitClosing? '[' ']' r with
    | none => simp [found, hclosing, hsplit]
    | some p =>
        have happ : '[' :: (p.1 ++ [']']) ++ p.2 = '[' :: r := by simp [splitClosing?_eq hsplit]
        have hleaf := leafTo?_eq .attr (by simp) h happ
          (k := n + 1 + byteLength p.1 + 1) (by simp [hsign]; omega)
        simp [found, hclosing, hsplit, hleaf]
  · simp [found, hc]

/-- The colons are counted and passed over, each of them a byte long. -/
theorem colons?_eq (count : Nat) (h : dropBytes? input n = some t) :
    colons? input n count =
      some (count + (t.takeWhile (· = ':')).length,
        n + byteLength (t.takeWhile (· = ':'))) := by
  have heat := eat?_eq ':' h
  induction t generalizing n count with
  | nil =>
      rw [colons?, heat]
      rfl
  | cons c r ih =>
      by_cases hc : c = ':'
      · subst hc
        have hnext := dropBytes?_next h
        rw [show (':' :: r).head? = some ':' from rfl, if_pos rfl] at heat
        rw [colons?, heat]
        simp [ih (count + 1) hnext (eat?_eq ':' hnext), Nat.add_assoc, Nat.add_comm 1]
      · rw [if_neg (by simpa using hc)] at heat
        rw [colons?, heat]
        simp [hc]

/-- The lexeme starts with the colons, the first of which stands at `start`. -/
theorem argumentsAt?_eq (start colons : Nat) {name : Text}
    (hstart : start + byteLength (List.replicate colons ':' ++ name) = n)
    (h : dropBytes? input n = some t) :
    argumentsAt? colons name input n =
      some (located start (Lexeme.readArguments colons name t).1) := by
  have hsign : '('.utf8Size = 1 ∧ ')'.utf8Size = 1 := ⟨rfl, rfl⟩
  rw [byteLength_append] at hstart
  rw [argumentsAt?, eat?_eq '(' h]
  by_cases hhead : t.head? = some '('
  · obtain ⟨body, rfl⟩ := List.head?_eq_some_iff.1 hhead
    have hbody : dropBytes? input (n + 1) = some body := dropBytes?_next h
    have hclosing := closing?_eq '(' ')' (by decide) (by decide)
      (by decide) hbody
    cases hsplit : splitClosing? '(' ')' body with
    | none =>
        have hlength := add_byteLength_of_dropBytes? hbody
        have hstop : start + byteLength (Lexeme.call colons name body false).text =
            byteLength input := by
          simp [Lexeme.text, hsign]
          omega
        simp [Lexeme.readArguments, hsign, hclosing, hsplit, hbody, located_eq hstop]
    | some p =>
        have hslice := slice?_of_append hbody (splitClosing?_eq hsplit)
        have hstop : start + byteLength (Lexeme.call colons name p.1 true).text =
            n + 1 + byteLength p.1 + 1 := by
          simp [Lexeme.text, hsign]
          omega
        simp [Lexeme.readArguments, hsign, hclosing, hsplit, hslice, located_eq hstop]
  · have hread : Lexeme.readArguments colons name t = (.leaf (.pseudo colons name), t) := by
      unfold Lexeme.readArguments
      split
      · exact absurd rfl hhead
      · rfl
    have hstop : start + byteLength (Lexeme.leaf (.pseudo colons name)).text = n := by
      simp [Lexeme.text]
      omega
    simp [hhead, hread, located_eq hstop]

theorem pseudoAt?_eq (h : dropBytes? input n = some (c :: r)) :
    pseudoAt? input n =
      found n (if c = ':' then
        (name? (r.dropWhile (· = ':'))).map fun p =>
          Lexeme.readArguments ((r.takeWhile (· = ':')).length + 1) p.1 p.2
      else none) := by
  rw [pseudoAt?, colons?_eq 0 h]
  by_cases hc : c = ':'
  · subst hc
    have hbehind := dropBytes?_takeWhile (· = ':') h
    have hall : ∀ d ∈ r.takeWhile (· = ':'), d = ':' := fun d hd => by
      simpa using List.all_eq_true.1 (List.all_takeWhile (p := (· = ':')) (l := r)) d hd
    have hcolons : List.replicate ((r.takeWhile (· = ':')).length + 1) ':' =
        ':' :: r.takeWhile (· = ':') := by
      rw [List.replicate_succ, ← List.eq_replicate_of_mem hall]
    rw [List.takeWhile_cons_of_pos rfl] at hbehind ⊢
    rw [List.dropWhile_cons_of_pos rfl] at hbehind
    simp only [Option.bind_eq_bind, Option.bind_some, Nat.zero_add, List.length_cons,
      Nat.succ_ne_zero, if_false, if_true, nameEnd?_eq hbehind]
    cases hname : name? (r.dropWhile (· = ':')) with
    | none => rfl
    | some p =>
        have hslice := slice?_of_append hbehind (name?_append hname).1
        have hrest := dropBytes?_of_append hbehind (name?_append hname).1
        have harguments := argumentsAt?_eq n ((r.takeWhile (· = ':')).length + 1)
          (by rw [byteLength_append, hcolons, ← Nat.add_assoc]) hrest
        simp only [Option.map_some, hslice, Option.bind_some, harguments]
        rfl
  · simp [found, hc]

/-- The combinator that a text starts with and what follows it. -/
def combinator? (t : Text) : Option (Lexeme × Text) :=
  match t.dropWhile isSpace with
  | d :: r =>
    if isCombinator d then
      some (.leaf (.combinator (t.takeWhile isSpace ++ d :: r.takeWhile isSpace)),
        r.dropWhile isSpace)
    else none
  | [] => none

theorem combinatorAt?_eq (h : dropBytes? input n = some t) :
    combinatorAt? input n = found n (combinator? t) := by
  have hskip := dropBytes?_takeWhile isSpace h
  have happ := List.takeWhile_append_dropWhile (p := isSpace) (l := t)
  rw [combinatorAt?, skipWhile?_eq isSpace h]
  simp only [Option.bind_eq_bind, Option.bind_some, hskip, combinator?]
  cases hrest : t.dropWhile isSpace with
  | nil => rfl
  | cons d r =>
      rw [hrest] at hskip happ
      cases hd : isCombinator d with
      | false => simp [found, hd]
      | true =>
          have hleaf := leafTo?_eq .combinator (by simp) h
            (u := t.takeWhile isSpace ++ d :: r.takeWhile isSpace) (v := r.dropWhile isSpace)
            (by simpa using happ) rfl
          rw [byteLength_append, byteLength_cons, ← Nat.add_assoc, ← Nat.add_assoc] at hleaf
          have hstop := skipWhile?_eq isSpace (dropBytes?_next hskip)
          simp [found, hd, advance?_cons hskip, hstop, hleaf]

theorem universalAt?_eq (h : dropBytes? input n = some (c :: r)) :
    universalAt? input n = found n (if c = '*' then some (.leaf .universal, r) else none) := by
  rw [universalAt?, eat?_eq '*' h]
  by_cases hc : c = '*'
  · simp [found, located, hc, Lexeme.text]
  · simp [found, hc]

theorem spaceAt?_eq (h : dropBytes? input n = some (c :: r)) :
    spaceAt? input n =
      found n (if isSpace c then
        some (.leaf (.whitespace ((c :: r).takeWhile isSpace)), (c :: r).dropWhile isSpace)
      else none) := by
  rw [spaceAt?, skipWhile?_eq isSpace h]
  cases hc : isSpace c with
  | true =>
      have hpos := c.utf8Size_pos
      have hleaf := leafTo?_eq .whitespace (by simp) h
        (List.takeWhile_append_dropWhile (p := isSpace)) rfl
      have hlt : n < n + byteLength ((c :: r).takeWhile isSpace) := by
        rw [List.takeWhile_cons_of_pos hc, byteLength_cons]
        omega
      simp only [Option.bind_eq_bind, Option.bind_some, if_pos hlt, hleaf, if_true]
      rfl
  | false => simp [found, hc]

theorem stringEnd?_eq {quote : Char} (hquote : isQuote quote = true)
    (h : dropBytes? input n = some t) :
    stringEnd? quote input n = some (n + byteLength (splitString true quote t).1) := by
  have happ := (stringScan true quote).cut_append false t
  rw [stringEnd?, quotedWalk_run? true hquote h, splitString]
  rcases hcut : (stringScan true quote).cut false t with ⟨u, _ | ⟨c, v⟩⟩
  · rw [hcut, List.append_nil] at happ
    have hlength := add_byteLength_of_dropBytes? h
    rw [← happ] at hlength
    exact congrArg some hlength.symm
  · rw [hcut] at happ
    by_cases hc : c = quote
    · simp [cutAt, hc, advance?_cons (dropBytes?_of_append h happ), Nat.add_assoc]
    · simp [cutAt, hc]

theorem stringAt?_eq (h : dropBytes? input n = some (c :: r)) :
    stringAt? input n =
      found n (if isQuote c then
        some (.leaf (.string (c :: (splitString true c r).1)), (splitString true c r).2)
      else none) := by
  rw [stringAt?, h]
  cases hc : isQuote c with
  | false => simp [found, hc]
  | true =>
      have hleaf := leafTo?_eq .string (by simp) h
        (u := c :: (splitString true c r).1) (v := (splitString true c r).2) (by simp) rfl
      rw [byteLength_cons, ← Nat.add_assoc] at hleaf
      simp [found, hc, advance?_cons h, stringEnd?_eq hc (dropBytes?_next h), hleaf]

theorem remarkAt?_eq (h : dropBytes? input n = some t) :
    remarkAt? input n = found n ((comment? t).map fun p => (.leaf (.comment p.1), p.2)) := by
  rw [remarkAt?, h]
  cases hopens : startsComment t with
  | false => simp [found, hopens, comment?_eq_none_iff.2 hopens]
  | true =>
      obtain ⟨r, rfl⟩ := startsComment_eq_true_iff.1 hopens
      have hleaf := leafTo?_eq .comment (by simp) h
        (u := '/' :: '*' :: (splitComment r).1) (v := (splitComment r).2) (by simp) rfl
      simp only [Option.bind_eq_bind, Option.bind_some, hopens, commentEnd?_of_dropBytes? h, hleaf]
      rfl

theorem rawAt?_eq (h : dropBytes? input n = some (c :: r)) :
    rawAt? input n = some (located n (.leaf (.raw [c]))) := by
  rw [rawAt?, advance?_cons h]
  exact leafTo?_eq .raw (by simp) h (u := [c]) rfl (by simp)

/-! ### The first that succeeds -/

/-- What the attempts find that go by a name or a closing bracket, in front of the text `c :: r`. -/
def namedAttempts (c : Char) (r : Text) : List (Option (Lexeme × Text)) :=
  [(name? (c :: r)).map fun p => (.leaf (.identifier p.1), p.2),
    if c = '.' then (name? r).map fun p => (.leaf (.className p.1), p.2) else none,
    if c = '#' then (name? r).map fun p => (.leaf (.id p.1), p.2) else none,
    if c = '[' then
      (splitClosing? '[' ']' r).map fun p => (.leaf (.attr ('[' :: (p.1 ++ [']']))), p.2)
    else none,
    if c = ':' then
      (name? (r.dropWhile (· = ':'))).map fun p =>
        Lexeme.readArguments ((r.takeWhile (· = ':')).length + 1) p.1 p.2
    else none]

/-- What the other attempts find. -/
def plainAttempts (c : Char) (r : Text) : List (Option (Lexeme × Text)) :=
  [combinator? (c :: r),
    if c = '*' then some (.leaf .universal, r) else none,
    if isSpace c then
      some (.leaf (.whitespace ((c :: r).takeWhile isSpace)), (c :: r).dropWhile isSpace)
    else none,
    if isQuote c then
      some (.leaf (.string (c :: (splitString true c r).1)), (splitString true c r).2)
    else none,
    (comment? (c :: r)).map fun p => (.leaf (.comment p.1), p.2)]

theorem firstOf?_found (n : Nat) (os : List (Option (Lexeme × Text))) :
    firstOf? (os.map (found n)) = found n (os.findSome? id) := by
  induction os with
  | nil => rfl
  | cons o os ih =>
      cases o with
      | none => exact ih
      | some p => rfl

theorem combinator?_eq_none (hspace : isSpace c = false) (hc : isCombinator c = false) (r : Text) :
    combinator? (c :: r) = none := by
  simp [combinator?, hspace, hc]

theorem isSpace_of_combinator?_eq_none (hc : (isSpace c || isCombinator c) = true)
    (h : combinator? (c :: r) = none) : isSpace c = true := by
  cases hspace : isSpace c with
  | true => rfl
  | false =>
      have hcombinator : isCombinator c = true := by simpa [hspace] using hc
      exact absurd h (by simp [combinator?, hspace, hcombinator])

theorem readGap_eq (t : Text) :
    Lexeme.readGap t =
      (combinator? t).getD (.leaf (.whitespace (t.takeWhile isSpace)), t.dropWhile isSpace) := by
  unfold Lexeme.readGap combinator?
  cases t.dropWhile isSpace with
  | nil => rfl
  | cons d r => cases hd : isCombinator d <;> simp [hd]

/-- The characters that are followed by a name or a closing bracket. -/
def leadSigns : List Char := ['.', '#', '[', ':']

theorem findSome?_plainAttempts_eq_none (h : c ∈ leadSigns) (r : Text) :
    (plainAttempts c r).findSome? id = none := by
  simp only [leadSigns, List.mem_cons, List.not_mem_nil, or_false] at h
  rcases h with rfl | rfl | rfl | rfl <;>
    simp [plainAttempts, combinator?, isSpace, isCombinator, isQuote, comment?]

theorem findSome?_plainAttempts (h : c ∉ leadSigns) (r : Text) :
    ((plainAttempts c r).findSome? id).getD (Lexeme.readRaw c r) = Lexeme.readSign c r := by
  simp only [leadSigns, List.mem_cons, List.not_mem_nil, or_false, not_or] at h
  unfold plainAttempts Lexeme.readSign
  simp only [h, if_false]
  cases hgap : isSpace c || isCombinator c with
  | true =>
      rw [if_pos rfl, readGap_eq]
      cases hcombinator : combinator? (c :: r) with
      | some p => rfl
      | none =>
          have hspace := isSpace_of_combinator?_eq_none hgap hcombinator
          have hstar : c ≠ '*' := by
            rintro rfl
            exact absurd hspace (by decide)
          simp [hspace, hstar]
  | false =>
      obtain ⟨hspace, hcombinator⟩ := Bool.or_eq_false_iff.1 hgap
      rw [combinator?_eq_none hspace hcombinator]
      by_cases hstar : c = '*'
      · simp [hstar]
      cases hquote : isQuote c with
      | true => simp [hspace, hstar, Lexeme.readString]
      | false =>
          by_cases hslash : c = '/'
          · subst hslash
            cases hcomment : comment? ('/' :: r) <;> simp [hspace, Lexeme.readComment, hcomment]
          · simp [hspace, hstar, hslash, comment?]

/-- The first character decides which of the attempts can succeed. -/
theorem findSome?_attempts (c : Char) (r : Text) :
    ((namedAttempts c r ++ plainAttempts c r).findSome? id).getD (Lexeme.readRaw c r) =
      Lexeme.read c r := by
  rw [List.findSome?_append, Lexeme.read, namedAttempts]
  cases name? (c :: r) with
  | some p => rfl
  | none =>
      by_cases hsign : c ∈ leadSigns
      · -- no other attempt succeeds at such a sign, so without a name or a bracket it is raw
        rw [findSome?_plainAttempts_eq_none hsign, Option.or_none]
        simp only [leadSigns, List.mem_cons, List.not_mem_nil, or_false] at hsign
        rcases hsign with rfl | rfl | rfl | rfl
        · cases hname : name? r <;> simp [Lexeme.readSign, Lexeme.readSigned, hname]
        · cases hname : name? r <;> simp [Lexeme.readSign, Lexeme.readSigned, hname]
        · cases hsplit : splitClosing? '[' ']' r <;>
            simp [Lexeme.readSign, Lexeme.readAttribute, hsplit]
        · cases hname : name? (r.dropWhile (· = ':')) <;>
            simp [Lexeme.readSign, Lexeme.readPseudo, hname]
      · have hplain := findSome?_plainAttempts hsign r
        simp only [leadSigns, List.mem_cons, List.not_mem_nil, or_false, not_or] at hsign
        simpa [hsign] using hplain

theorem attemptsAt_eq (h : dropBytes? input n = some (c :: r)) :
    attemptsAt input n = (namedAttempts c r ++ plainAttempts c r).map (found n) := by
  rw [attemptsAt, identifierAt?_eq h, signedAt?_eq (by simp) h, signedAt?_eq (by simp) h,
    attributeAt?_eq h, pseudoAt?_eq h, combinatorAt?_eq h, universalAt?_eq h, spaceAt?_eq h,
    stringAt?_eq h, remarkAt?_eq h]
  rfl

theorem lexemeAt?_eq (h : dropBytes? input n = some (c :: r)) :
    lexemeAt? input n = some (located n (Lexeme.read c r).1) := by
  rw [lexemeAt?, attemptsAt_eq h, firstOf?_found, rawAt?_eq h, ← findSome?_attempts]
  cases (namedAttempts c r ++ plainAttempts c r).findSome? id with
  | none => rfl
  | some p => rfl

/-- Where the text goes on, the lexeme is the one that is read there. -/
theorem exists_of_lexemeAt? {x : Lexeme} {k : Nat} (hlt : ¬byteLength input ≤ n)
    (h : lexemeAt? input n = some (x, k)) :
    ∃ c r rest, dropBytes? input n = some (c :: r) ∧ Lexeme.read c r = (x, rest) ∧
      k = n + byteLength x.text := by
  cases ht : dropBytes? input n with
  | none =>
      -- already the first attempt slices here
      have hname : identifierAt? input n = none := by simp [identifierAt?, nameEnd?, eat?, ht]
      rw [lexemeAt?, attemptsAt, hname] at h
      exact absurd h (by simp [firstOf?])
  | some t =>
      rcases t with _ | ⟨c, r⟩
      · have hlength := add_byteLength_of_dropBytes? ht
        rw [byteLength_nil] at hlength
        omega
      · rw [lexemeAt?_eq ht, located] at h
        obtain ⟨rfl, rfl⟩ := Prod.mk.inj (Option.some.inj h)
        exact ⟨c, r, _, rfl, rfl, rfl⟩

theorem lt_of_lexemeAt? {x : Lexeme} {k : Nat} (hlt : ¬byteLength input ≤ n)
    (h : lexemeAt? input n = some (x, k)) : n < k := by
  obtain ⟨c, r, rest, -, hread, rfl⟩ := exists_of_lexemeAt? hlt h
  have hne := (Lexeme.takes_read c r).2
  rw [hread] at hne
  obtain ⟨d, u, hu⟩ := List.exists_cons_of_ne_nil hne
  have hpos := d.utf8Size_pos
  rw [show x.text = d :: u from hu, byteLength_cons]
  omega

/-- The arguments are shorter than what is left from the lexeme on. -/
theorem arguments_lt_of_lexemeAt? {colons k : Nat} {name arguments : Text} {closed : Bool}
    (hlt : ¬byteLength input ≤ n)
    (h : lexemeAt? input n = some (.call colons name arguments closed, k)) :
    byteLength arguments - 0 < byteLength input - n := by
  obtain ⟨c, r, rest, ht, hread, -⟩ := exists_of_lexemeAt? hlt h
  have hlength := add_byteLength_of_dropBytes? ht
  have happ := congrArg byteLength (Lexeme.read_append c r)
  have hsign : '('.utf8Size = 1 := rfl
  rw [hread] at happ
  simp only [Lexeme.text, byteLength_append, byteLength_cons, hsign] at happ hlength
  omega

end

def fragmentsFrom? (input : Text) (n : Nat) : Option (List Fragment) := do
  if _hend : byteLength input ≤ n then return []
  else
    match _h : lexemeAt? input n with
    | none => none
    | some (.leaf f, k) => return f :: (← fragmentsFrom? input k)
    | some (.call colons name arguments closed, k) =>
      return .function colons name (← fragmentsFrom? arguments 0) closed ::
        (← fragmentsFrom? input k)
termination_by byteLength input - n
decreasing_by
  · exact Nat.sub_lt_sub_left (Nat.lt_of_not_le _hend) (lt_of_lexemeAt? _hend _h)
  · exact arguments_lt_of_lexemeAt? _hend _h
  · exact Nat.sub_lt_sub_left (Nat.lt_of_not_le _hend) (lt_of_lexemeAt? _hend _h)

theorem fragmentsFrom?_eq {input t : Text} {n : Nat} (h : dropBytes? input n = some t) :
    fragmentsFrom? input n = some (tokenize t) := by
  induction hlength : t.length using Nat.strongRecOn generalizing input t n with
  | _ _ ih =>
  subst hlength
  have hend := add_byteLength_of_dropBytes? h
  rw [fragmentsFrom?]
  cases t with
  | nil =>
      rw [byteLength_nil] at hend
      rw [dif_pos (by omega), tokenize]
      rfl
  | cons c r =>
      have hpos := c.utf8Size_pos
      rw [byteLength_cons] at hend
      rw [dif_neg (by omega), lexemeAt?_eq h, tokenize]
      have happ := Lexeme.read_append c r
      rcases hread : Lexeme.read c r with ⟨x, rest⟩
      rw [hread] at happ
      have hrest : dropBytes? input (n + byteLength x.text) = some rest :=
        dropBytes?_of_append h happ
      have ihrest := ih _ (Lexeme.length_read_rest hread) hrest rfl
      rw [located]
      cases x with
      | leaf f =>
          simp only [Option.bind_eq_bind, Option.bind_some, ihrest]
          rfl
      | call colons name arguments closed =>
          have iharguments := ih _ (Lexeme.length_read_arguments hread) dropBytes?_zero rfl
          simp only [Option.bind_eq_bind, Option.bind_some, ihrest, iharguments]
          rfl

end StyleScope.Offsets
