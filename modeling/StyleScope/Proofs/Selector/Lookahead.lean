import StyleScope.Proofs.Selector.Grammar

/-! # What reading looks ahead to

Beyond the text it takes, reading a fragment looks at the first character of what follows, at whether
a name starts there, and at whether one starts behind the colons there. Texts that agree on these
look alike, and a fragment read in front of one of them is read in front of the other
(`Lexeme.Stands.congr`); only a stray `[` looks further, for a bracket that closes it. Two texts look
alike when they start with fragments that differ at most inside a comment or between parentheses
(`Lexeme.looksLike_of_alike`).
-/
namespace StyleScope.Selector
open Text

/-- Both texts let the same fragments be read in front of them. -/
structure LooksLike (t t' : Text) : Prop where
  head : t.head? = t'.head?
  name : (name? t).isSome = (name? t').isSome
  colons : (name? (t.dropWhile (· = ':'))).isSome = (name? (t'.dropWhile (· = ':'))).isSome

theorem isSome_nameBody? (t : Text) :
    (nameBody? t).isSome = (decide (t.head? = some '-') || (name? t).isSome) := by
  by_cases h : t.head? = some '-'
  · obtain ⟨r, rfl⟩ := List.head?_eq_some_iff.1 h
    have hstart : isNameStart '-' = true := rfl
    cases r with
    | nil => simp [nameBody?, nameHead?, hstart]
    | cons d r => simp [nameBody?, nameHead?, hstart]
  · simp [name?_of_head_ne h, h]

theorem isSome_name?_cons (c : Char) (t : Text) :
    (name? (c :: t)).isSome =
      if c = '-' then (nameBody? t).isSome
      else if c = '\\' then t.head?.isSome else isNameStart c := by
  by_cases hh : c = '-'
  · rw [if_pos hh, hh, name?, Option.isSome_map]
  · rw [if_neg hh, name?_of_head_ne (by simpa using hh), nameBody?, Option.isSome_map]
    cases t with
    | nil =>
        by_cases hb : c = '\\'
        · subst hb
          rfl
        · cases hc : isNameStart c <;> simp [nameHead?, hb, hc]
    | cons d r =>
        by_cases hb : c = '\\'
        · simp [nameHead?, hb]
        · cases hc : isNameStart c <;> simp [nameHead?, hb, hc]

namespace LooksLike
variable {t t' : Text}

theorem refl (t : Text) : LooksLike t t := ⟨rfl, rfl, rfl⟩

theorem eq_nil (h : LooksLike [] t') : t' = [] := List.head?_eq_none_iff.1 h.head.symm

theorem name?_eq_none (h : LooksLike t t') (hn : name? t = none) : name? t' = none := by
  have hname := h.name
  rw [hn] at hname
  exact Option.isNone_iff_eq_none.1 (by simpa using hname.symm)

theorem colons_eq_none (h : LooksLike t t') (hn : name? (t.dropWhile (· = ':')) = none) :
    name? (t'.dropWhile (· = ':')) = none := by
  have hname := h.colons
  rw [hn] at hname
  exact Option.isNone_iff_eq_none.1 (by simpa using hname.symm)

theorem name?_cons_eq_none (h : LooksLike t t') {c : Char} (hn : name? (c :: t) = none) :
    name? (c :: t') = none := by
  have hsome : (name? (c :: t)).isSome = (name? (c :: t')).isSome := by
    rw [isSome_name?_cons, isSome_name?_cons, isSome_nameBody?, isSome_nameBody?, h.head, h.name]
  rw [hn] at hsome
  exact Option.isNone_iff_eq_none.1 (by simpa using hsome.symm)

theorem nameEnds (h : LooksLike t t') (ht : NameEnds t) : NameEnds t' := by
  cases t with
  | nil =>
      rw [h.eq_nil]
      exact nameEnds_nil
  | cons c r =>
      obtain ⟨r', rfl⟩ := List.head?_eq_some_iff.1 h.head.symm
      obtain ⟨hc, hr⟩ := nameEnds_cons_iff.1 ht
      refine nameEnds_cons_iff.2 ⟨hc, fun hb => ?_⟩
      -- a backslash that ends the text is the only one at which no name starts
      have hname := h.name
      rw [isSome_name?_cons, isSome_name?_cons, hb, hr hb] at hname
      simpa using hname

end LooksLike

namespace Lexeme

theorem StartsNothing.congr {c : Char} {t t' : Text} (h : StartsNothing c t) (hl : LooksLike t t')
    (hb : c = '[' → splitClosing? '[' ']' t' = none) : StartsNothing c t' where
  name := hl.name?_cons_eq_none h.name
  signed hc := hl.name?_eq_none (h.signed hc)
  bracket := hb
  colon hc := hl.colons_eq_none (h.colon hc)
  space := h.space
  combinator := h.combinator
  star := h.star
  quote := h.quote
  slash hc := hl.head ▸ h.slash hc

/-- A lexeme may stand in front of any text that looks like the one behind it. -/
theorem Stands.congr {x : Lexeme} {t t' : Text} (h : Stands x t) (hl : LooksLike t t')
    (hb : x = leaf (.raw ['[']) → splitClosing? '[' ']' t' = none) : Stands x t' := by
  cases h with
  | identifier hn hend => exact .identifier hn (hl.nameEnds hend)
  | className hn hend => exact .className hn (hl.nameEnds hend)
  | id hn hend => exact .id hn (hl.nameEnds hend)
  | attr he => exact .attr he
  | pseudo hn hend hopen => exact .pseudo hn (hl.nameEnds hend) (hl.head ▸ hopen)
  | call hn he => exact .call hn he
  | openCall hn he =>
      rw [hl.eq_nil]
      exact .openCall hn he
  | combinator hlead hd htrail hend => exact .combinator hlead hd htrail (hl.head ▸ hend)
  | universal => exact .universal
  | whitespace hs hend => exact .whitespace hs (hl.head ▸ hend)
  | string hq hp hend => exact .string hq hp hend
  | lineString hq hp hend hline =>
      obtain ⟨r', rfl⟩ := List.head?_eq_some_iff.1 hl.head.symm
      exact .lineString hq hp hend hline
  | openString hq hp =>
      rw [hl.eq_nil]
      exact .openString hq hp
  | comment hp hstar => exact .comment hp hstar
  | openComment hp =>
      rw [hl.eq_nil]
      exact .openComment hp
  | raw hraw => exact .raw (hraw.congr hl fun hc => hb (by rw [hc]))

/-- A fragment that can carry a token may stand in front of a bracket. -/
theorem Stands.of_isScopable {x : Lexeme} {t : Text} (h : Stands x t)
    (hx : x.fragment.isScopable = true) (r : Text) : Stands x ('[' :: r) := by
  have hend : NameEnds ('[' :: r) := nameEnds_of_sign rfl (by decide) r
  cases h with
  | identifier hn _ => exact .identifier hn hend
  | className hn _ => exact .className hn hend
  | id hn _ => exact .id hn hend
  | attr he => exact .attr he
  | universal => exact .universal
  | _ => exact absurd hx (by simp [Lexeme.fragment, Fragment.isScopable])

/-- Lexemes that differ at most inside a comment or between parentheses. -/
inductive Alike : Lexeme → Lexeme → Prop
  | refl (x : Lexeme) : Alike x x
  | comment (a b : Text) : Alike (leaf (.comment a)) (leaf (.comment b))
  | call (colons : Nat) (n a b : Text) (closed : Bool) :
      Alike (call colons n a closed) (call colons n b closed)

def isIdentifier : Lexeme → Bool
  | leaf (.identifier _) => true
  | _ => false

/-- A type selector or a pseudo selector. -/
def isNamed : Lexeme → Bool
  | leaf (.identifier _) | leaf (.pseudo _ _) | call _ _ _ _ => true
  | _ => false

theorem Stands.isSome_name? {x : Lexeme} {t r : Text} {c : Char} (h : Stands x t)
    (hcr : x.text ++ t = c :: r) : (name? (c :: r)).isSome = x.isIdentifier := by
  have hread := read_of_stands h hcr
  cases hn : name? (c :: r) with
  | some p =>
      have hx : x = leaf (.identifier p.1) := by
        rw [read, hn] at hread
        exact (congrArg Prod.fst hread).symm
      rw [hx]
      rfl
  | none =>
      cases h with
      | identifier hname hend =>
          have hsome := name?_eq_some_iff.2 ⟨hcr.symm, by simpa using hname, hend⟩
          exact absurd (hn.symm.trans hsome) (by simp)
      | _ => rfl

theorem isNamed_readArguments (colons : Nat) (n rest : Text) :
    (readArguments colons n rest).1.isNamed = true := by
  unfold readArguments
  split
  · split
    · rfl
    · rfl
  · rfl

theorem Stands.isSome_name?_colons {x : Lexeme} {t r : Text} {c : Char} (h : Stands x t)
    (hcr : x.text ++ t = c :: r) :
    (name? ((c :: r).dropWhile (· = ':'))).isSome = x.isNamed := by
  have hread := read_of_stands h hcr
  by_cases hc : c = ':'
  · subst hc
    rw [read_of_sign rfl (by decide)] at hread
    change readPseudo r = (x, t) at hread
    rw [List.dropWhile_cons_of_pos (by decide)]
    unfold readPseudo at hread
    split at hread
    · next n rest hn =>
      have hx := isNamed_readArguments ((r.takeWhile (· = ':')).length + 1) n rest
      rw [hread] at hx
      rw [hn, Option.isSome_some, hx]
    · next hn =>
      obtain rfl : leaf (.raw [':']) = x := congrArg Prod.fst hread
      rw [hn]
      rfl
  · rw [List.dropWhile_cons_of_neg (by simpa using hc), h.isSome_name? hcr]
    cases h with
    | pseudo => exact absurd (List.cons.inj hcr).1.symm hc
    | call => exact absurd (List.cons.inj hcr).1.symm hc
    | openCall => exact absurd (List.cons.inj hcr).1.symm hc
    | _ => rfl

theorem Stands.head?_comment {a t : Text} (h : Stands (leaf (.comment a)) t) :
    (leaf (.comment a)).text.head? = some '/' := by
  cases h with
  | comment => simp
  | openComment => simp

theorem Stands.head?_call {colons : Nat} {n a t : Text} {closed : Bool}
    (h : Stands (Lexeme.call colons n a closed) t) :
    (Lexeme.call colons n a closed).text.head? = some ':' := by
  cases h with
  | call => simp [text, List.replicate_succ]
  | openCall => simp [text, List.replicate_succ]

theorem Alike.head? {x x' : Lexeme} {t t' : Text} (ha : Alike x x') (h : Stands x t)
    (h' : Stands x' t') : x.text.head? = x'.text.head? := by
  cases ha with
  | refl => rfl
  | comment a b => rw [h.head?_comment, h'.head?_comment]
  | call colons n a b closed => rw [h.head?_call, h'.head?_call]

/-- Texts look alike whose first fragments differ at most inside a comment or between
parentheses. -/
theorem looksLike_of_alike {x x' : Lexeme} {t t' : Text} (ha : Alike x x') (h : Stands x t)
    (h' : Stands x' t') : LooksLike (x.text ++ t) (x'.text ++ t') := by
  obtain ⟨c, u, hu⟩ := List.exists_cons_of_ne_nil h.text_ne_nil
  obtain ⟨d, v, hv⟩ := List.exists_cons_of_ne_nil h'.text_ne_nil
  have hcr : x.text ++ t = c :: (u ++ t) := by rw [hu, List.cons_append]
  have hdr : x'.text ++ t' = d :: (v ++ t') := by rw [hv, List.cons_append]
  have hkind : x.isIdentifier = x'.isIdentifier ∧ x.isNamed = x'.isNamed := by
    cases ha with
    | refl => exact ⟨rfl, rfl⟩
    | comment a b => exact ⟨rfl, rfl⟩
    | call colons n a b closed => exact ⟨rfl, rfl⟩
  have hhead : c = d := by simpa [hu, hv] using ha.head? h h'
  rw [hcr, hdr]
  refine ⟨by simp [hhead], ?_, ?_⟩
  · rw [h.isSome_name? hcr, h'.isSome_name? hdr, hkind.1]
  · rw [h.isSome_name?_colons hcr, h'.isSome_name?_colons hdr, hkind.2]

end Lexeme
end StyleScope.Selector
