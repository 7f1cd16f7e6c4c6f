import StyleScope.Proofs.Selector.Names
import StyleScope.Proofs.Selector.RoundTrip
import StyleScope.Proofs.Text.Scans

/-! # The grammar of selector fragments

`Lexeme.Stands x t` says, one rule for each kind of fragment, that the lexeme `x` is well formed and
that `t` may follow it: a name must not go on in `t`, space must not either, a string or comment that
is never closed needs `t` to be empty, and so on. Reading takes `x` off a text and leaves `t` exactly
when `x` stands in front of `t` and the two make up the text (`Lexeme.read_eq_iff`). So whatever the
text around a fragment, what matters to its reading is said by `Stands` alone.
-/
namespace StyleScope.Selector
open Text

namespace Lexeme

/-- Nothing but the character itself can be read at `c` in front of `t`. -/
structure StartsNothing (c : Char) (t : Text) : Prop where
  name : name? (c :: t) = none
  signed : c = '.' ∨ c = '#' → name? t = none
  bracket : c = '[' → splitClosing? '[' ']' t = none
  colon : c = ':' → name? (t.dropWhile (· = ':')) = none
  space : isSpace c = false
  combinator : isCombinator c = false
  star : c ≠ '*'
  quote : isQuote c = false
  slash : c = '/' → t.head? ≠ some '*'

/-- A well-formed lexeme and a text that may follow it. -/
inductive Stands : Lexeme → Text → Prop
  | identifier {n t : Text} : IsName n → NameEnds t → Stands (leaf (.identifier n)) t
  | className {n t : Text} : IsName n → NameEnds t → Stands (leaf (.className n)) t
  | id {n t : Text} : IsName n → NameEnds t → Stands (leaf (.id n)) t
  | attr {inside t : Text} : Encloses '[' ']' inside →
      Stands (leaf (.attr ('[' :: inside ++ [']']))) t
  | pseudo {colons : Nat} {n t : Text} : IsName n → NameEnds t → t.head? ≠ some '(' →
      Stands (leaf (.pseudo (colons + 1) n)) t
  | call {colons : Nat} {n arguments t : Text} : IsName n → Encloses '(' ')' arguments →
      Stands (.call (colons + 1) n arguments true) t
  /-- Arguments that are never closed run to the end. -/
  | openCall {colons : Nat} {n arguments : Text} : IsName n →
      splitClosing? '(' ')' arguments = none → Stands (.call (colons + 1) n arguments false) []
  | combinator {lead trail t : Text} {d : Char} : lead.all isSpace = true →
      isCombinator d = true → trail.all isSpace = true → t.head?.any isSpace = false →
      Stands (leaf (.combinator (lead ++ d :: trail))) t
  | universal {t : Text} : Stands (leaf .universal) t
  | whitespace {c : Char} {r t : Text} : (c :: r).all isSpace = true →
      (t.head?.any fun d => isSpace d || isCombinator d) = false →
      Stands (leaf (.whitespace (c :: r))) t
  | string {q : Char} {body t : Text} : isQuote q = true →
      (stringScan true q).Passes false body → (stringScan true q).after false body = false →
      Stands (leaf (.string (q :: body ++ [q]))) t
  /-- A string that ends with its line. -/
  | lineString {q c : Char} {body r : Text} : isQuote q = true →
      (stringScan true q).Passes false body → (stringScan true q).after false body = false →
      isNewline c = true → Stands (leaf (.string (q :: body))) (c :: r)
  /-- A string that is never closed runs to the end. -/
  | openString {q : Char} {body : Text} : isQuote q = true →
      (stringScan true q).Passes false body → Stands (leaf (.string (q :: body))) []
  | comment {body t : Text} : commentScan.Passes false body →
      commentScan.after false body = true →
      Stands (leaf (.comment ('/' :: '*' :: body ++ ['/']))) t
  /-- A comment that is never closed runs to the end. -/
  | openComment {body : Text} : commentScan.Passes false body →
      Stands (leaf (.comment ('/' :: '*' :: body))) []
  | raw {c : Char} {t : Text} : StartsNothing c t → Stands (leaf (.raw [c])) t

theorem stands_readSigned {make : Text → Fragment} {c : Char} {r : Text}
    (hmake : ∀ {n t : Text}, IsName n → NameEnds t → Stands (leaf (make n)) t)
    (hraw : name? r = none → StartsNothing c r) :
    Stands (readSigned make c r).1 (readSigned make c r).2 := by
  unfold readSigned
  split
  · next n rest h => exact hmake (name?_eq_some_iff.1 h).2.1 (name?_eq_some_iff.1 h).2.2
  · next h => exact .raw (hraw h)

theorem stands_readArguments {name rest : Text} (colons : Nat) (hn : IsName name)
    (hr : NameEnds rest) :
    Stands (readArguments (colons + 1) name rest).1 (readArguments (colons + 1) name rest).2 := by
  unfold readArguments
  split
  · next body =>
    split
    · next inside rest' h => exact .call hn (splitClosing?_eq_some_iff.1 h).2
    · next h => exact .openCall hn h
  · next hne =>
    refine .pseudo hn hr fun hh => ?_
    obtain ⟨body, rfl⟩ := List.head?_eq_some_iff.1 hh
    exact hne body rfl

theorem stands_readGap {c : Char} {r : Text} (hc : isSpace c = true ∨ isCombinator c = true) :
    Stands (readGap (c :: r)).1 (readGap (c :: r)).2 := by
  have hlead : ((c :: r).takeWhile isSpace).all isSpace = true := List.all_takeWhile
  have hnot := any_head?_dropWhile isSpace (c :: r)
  by_cases hs : isSpace c = true
  · have hcons : (c :: r).takeWhile isSpace = c :: r.takeWhile isSpace := by simp [hs]
    unfold readGap
    dsimp only
    split
    · next d u e =>
      split
      · next hd => exact .combinator hlead hd List.all_takeWhile (any_head?_dropWhile isSpace u)
      · next hd =>
        rw [e] at hnot
        rw [hcons] at hlead ⊢
        exact .whitespace hlead (by simpa [hd] using hnot)
    · rw [hcons] at hlead ⊢
      exact .whitespace hlead rfl
  · have hd := hc.resolve_left hs
    rw [readGap, List.takeWhile_cons_of_neg hs, List.dropWhile_cons_of_neg hs]
    simp only [hd, if_true]
    exact .combinator rfl hd List.all_takeWhile (any_head?_dropWhile isSpace r)

theorem stands_readComment {r : Text} (h : name? ('/' :: r) = none) :
    Stands (readComment r).1 (readComment r).2 := by
  unfold readComment comment?
  split
  · next body rest e =>
    split at e
    · next u eu =>
      obtain ⟨rfl, rfl⟩ : '/' :: '*' :: (splitComment u).1 = body ∧ (splitComment u).2 = rest := by
        simpa using e
      rcases splitComment_cases u with ⟨b, v, -, hp, hstar, hu⟩ | ⟨hp, hu⟩
      · rw [hu]
        exact .comment hp hstar
      · rw [hu]
        exact .openComment hp
    · exact absurd e (by simp)
  · next e =>
    refine .raw ⟨h, by simp, by simp, by simp, rfl, rfl, by simp, rfl, fun _ hstar => ?_⟩
    obtain ⟨u, rfl⟩ := List.head?_eq_some_iff.1 hstar
    exact absurd e (by simp)

theorem stands_readString {q : Char} (r : Text) (hq : isQuote q = true) :
    Stands (readString q r).1 (readString q r).2 := by
  unfold readString
  dsimp only
  obtain ⟨body, hp, ⟨rest, -, hend, hr⟩ | ⟨c, rest, -, hend, hline, -, hr⟩ | ⟨-, hr⟩⟩ :=
    splitString_cases q r
  · rw [hr]
    exact .string hq hp hend
  · rw [hr]
    exact .lineString hq hp hend hline
  · rw [hr]
    exact .openString hq hp

theorem stands_readSign {c : Char} {r : Text} (h : name? (c :: r) = none) :
    Stands (readSign c r).1 (readSign c r).2 := by
  unfold readSign
  split
  · next hc =>
    subst hc
    exact stands_readSigned .className fun hn =>
      ⟨h, fun _ => hn, by simp, by simp, rfl, rfl, by simp, rfl, by simp⟩
  · split
    · next hc =>
      subst hc
      exact stands_readSigned .id fun hn =>
        ⟨h, fun _ => hn, by simp, by simp, rfl, rfl, by simp, rfl, by simp⟩
    · split
      · next hc =>
        subst hc
        unfold readAttribute
        split
        · next inside rest he => exact .attr (splitClosing?_eq_some_iff.1 he).2
        · next he =>
          exact .raw ⟨h, by simp, fun _ => he, by simp, rfl, rfl, by simp, rfl, by simp⟩
      · split
        · next hc =>
          subst hc
          unfold readPseudo
          split
          · next n rest hn =>
            exact stands_readArguments _ (name?_eq_some_iff.1 hn).2.1 (name?_eq_some_iff.1 hn).2.2
          · next hn =>
            exact .raw ⟨h, by simp, by simp, fun _ => hn, rfl, rfl, by simp, rfl, by simp⟩
        · split
          · next hc => exact stands_readGap (by simpa using hc)
          · split
            · exact .universal
            · split
              · next hq => exact stands_readString r hq
              · split
                · next hc => exact stands_readComment (hc ▸ h)
                · have hraw : StartsNothing c r := by constructor <;> simp_all
                  exact .raw hraw

/-- What is read off a text stands in front of what is left. -/
theorem stands_read (c : Char) (r : Text) : Stands (read c r).1 (read c r).2 := by
  unfold read
  split
  · next n rest h => exact .identifier (name?_eq_some_iff.1 h).2.1 (name?_eq_some_iff.1 h).2.2
  · next h => exact stands_readSign h

theorem readArguments_call {inside : Text} (colons : Nat) (n t : Text)
    (h : Encloses '(' ')' inside) :
    readArguments colons n ('(' :: (inside ++ ')' :: t)) = (call colons n inside true, t) := by
  have hsplit : splitClosing? '(' ')' (inside ++ ')' :: t) = some (inside, t) :=
    splitClosing?_eq_some_iff.2 ⟨rfl, h⟩
  simp [readArguments, hsplit]

theorem readArguments_leaf {t : Text} (colons : Nat) (n : Text) (h : t.head? ≠ some '(') :
    readArguments colons n t = (leaf (.pseudo colons n), t) := by
  unfold readArguments
  split
  · exact absurd rfl h
  · rfl

theorem isSpace_of_isCombinator {d : Char} (h : isCombinator d = true) : isSpace d = false := by
  simp only [isCombinator, Bool.or_eq_true, decide_eq_true_eq] at h
  rcases h with (rfl | rfl) | rfl <;> rfl

theorem readGap_combinator {lead trail t : Text} {d : Char} (hlead : lead.all isSpace = true)
    (hd : isCombinator d = true) (htrail : trail.all isSpace = true)
    (hend : t.head?.any isSpace = false) :
    readGap (lead ++ d :: (trail ++ t)) = (leaf (.combinator (lead ++ d :: trail)), t) := by
  have hstop : (d :: (trail ++ t)).head?.any isSpace = false := by
    simpa using isSpace_of_isCombinator hd
  simp only [readGap, takeWhile_append_of_all hlead hstop, dropWhile_append_of_all hlead hstop, hd,
    if_true, takeWhile_append_of_all htrail hend, dropWhile_append_of_all htrail hend]

theorem readGap_whitespace {s t : Text} (hs : s.all isSpace = true)
    (hend : (t.head?.any fun d => isSpace d || isCombinator d) = false) :
    readGap (s ++ t) = (leaf (.whitespace s), t) := by
  cases t with
  | nil =>
      have hstop : ([] : Text).head?.any isSpace = false := rfl
      simp only [readGap, takeWhile_append_of_all hs hstop, dropWhile_append_of_all hs hstop]
  | cons d r =>
      obtain ⟨hspace, hcomb⟩ : isSpace d = false ∧ isCombinator d = false := by simpa using hend
      have hstop : (d :: r).head?.any isSpace = false := by simpa using hspace
      simp [readGap, takeWhile_append_of_all hs hstop, dropWhile_append_of_all hs hstop, hcomb]

theorem read_of_sign {c : Char} (hc : isNameStart c = false) (hb : c ≠ '\\') (r : Text) :
    read c r = readSign c r := by
  rw [read, name?_cons_of_sign hc hb]

theorem readPseudo_colons {n rest : Text} (colons : Nat) (hn : IsName n) (ht : NameEnds rest) :
    readPseudo (List.replicate colons ':' ++ (n ++ rest)) =
      readArguments (colons + 1) n rest := by
  obtain ⟨c, r, rfl⟩ := List.exists_cons_of_ne_nil hn.ne_nil
  have hc : c ≠ ':' := by
    rintro rfl
    exact absurd hn.head (by decide)
  have hall : ∀ d ∈ List.replicate colons ':', decide (d = ':') = true := by simp
  have htake : (List.replicate colons ':' ++ (c :: r ++ rest)).takeWhile (· = ':') =
      List.replicate colons ':' := by
    rw [List.takeWhile_append_of_pos hall]
    simp [hc]
  have hdrop : (List.replicate colons ':' ++ (c :: r ++ rest)).dropWhile (· = ':') =
      c :: r ++ rest := by
    rw [List.dropWhile_append_of_pos hall]
    simp [hc]
  rw [readPseudo, hdrop, name?_eq_some_iff.2 ⟨rfl, hn, ht⟩, htake, List.length_replicate]

@[simp] theorem text_leaf (f : Fragment) : (leaf f).text = f.text := rfl

theorem isNameStart_of_gap {c : Char} (h : isSpace c = true ∨ isCombinator c = true) :
    isNameStart c = false ∧ c ≠ '\\' := by
  simp only [isSpace, isCombinator, Bool.or_eq_true, decide_eq_true_eq] at h
  rcases h with ((((rfl | rfl) | rfl) | rfl) | rfl) | (rfl | rfl) | rfl <;> decide

theorem read_of_gap {c : Char} (h : isSpace c = true ∨ isCombinator c = true) (r : Text) :
    read c r = readGap (c :: r) := by
  obtain ⟨hc, hb⟩ := isNameStart_of_gap h
  rw [read_of_sign hc hb]
  have hne : c ≠ '.' ∧ c ≠ '#' ∧ c ≠ '[' ∧ c ≠ ':' := by
    refine ⟨?_, ?_, ?_, ?_⟩ <;> rintro rfl <;> exact absurd h (by decide)
  simp only [readSign, hne, if_false]
  rw [if_pos (by simpa using h)]

theorem read_of_quote {q : Char} (h : isQuote q = true) (r : Text) :
    read q r = readString q r := by
  simp only [isQuote, Bool.or_eq_true, decide_eq_true_eq] at h
  rcases h with rfl | rfl
  · rw [read_of_sign rfl (by decide)]
    rfl
  · rw [read_of_sign rfl (by decide)]
    rfl

theorem ne_of_isNewline {c q : Char} (hline : isNewline c = true) (hq : isQuote q = true) :
    c ≠ q := by
  rintro rfl
  simp only [isNewline, Bool.or_eq_true, decide_eq_true_eq] at hline
  rcases hline with rfl | rfl <;> exact absurd hq (by decide)

theorem readSign_slash (r : Text) : readSign '/' r = readComment r := rfl

theorem readComment_of_head_ne {r : Text} (h : r.head? ≠ some '*') :
    readComment r = readRaw '/' r := by
  have hnone : comment? ('/' :: r) = none := by
    unfold comment?
    split
    · next e =>
      obtain ⟨-, rfl⟩ := List.cons.inj e
      exact absurd rfl h
    · rfl
  rw [readComment, hnone]

theorem readSign_of_startsNothing {c : Char} {t : Text} (h : StartsNothing c t) :
    readSign c t = readRaw c t := by
  unfold readSign
  split
  · next hc => rw [readSigned, h.signed (.inl hc)]
  · split
    · next hc => rw [readSigned, h.signed (.inr hc)]
    · split
      · next hc => rw [readAttribute, h.bracket hc, hc]
      · split
        · next hc => rw [readPseudo, h.colon hc, hc]
        · rw [if_neg (by simp [h.space, h.combinator]), if_neg h.star, if_neg (by simp [h.quote])]
          split
          · next hc => rw [readComment_of_head_ne (h.slash hc), hc]
          · rfl

/-- A lexeme is read off whatever it stands in front of. -/
theorem read_of_stands {x : Lexeme} {t r : Text} {c : Char} (h : Stands x t)
    (ht : x.text ++ t = c :: r) : read c r = (x, t) := by
  cases h with
  | identifier hn hend =>
      rw [text_leaf, Fragment.text_identifier] at ht
      rw [read, name?_eq_some_iff.2 ⟨ht.symm, hn, hend⟩]
  | className hn hend =>
      simp only [text_leaf, Fragment.text_className, List.cons_append, List.cons.injEq] at ht
      obtain ⟨rfl, rfl⟩ := ht
      rw [read_of_sign rfl (by decide)]
      simp [readSign, readSigned, name?_eq_some_iff.2 ⟨rfl, hn, hend⟩]
  | id hn hend =>
      simp only [text_leaf, Fragment.text_id, List.cons_append, List.cons.injEq] at ht
      obtain ⟨rfl, rfl⟩ := ht
      rw [read_of_sign rfl (by decide)]
      simp [readSign, readSigned, name?_eq_some_iff.2 ⟨rfl, hn, hend⟩]
  | @attr inside _ he =>
      simp only [text_leaf, Fragment.text_attr, List.cons_append, List.append_assoc,
        List.nil_append, List.cons.injEq] at ht
      obtain ⟨rfl, rfl⟩ := ht
      have hsplit : splitClosing? '[' ']' (inside ++ ']' :: t) = some (inside, t) :=
        splitClosing?_eq_some_iff.2 ⟨rfl, he⟩
      rw [read_of_sign rfl (by decide)]
      simp [readSign, readAttribute, hsplit]
  | @pseudo colons n _ hn hend hopen =>
      simp only [text_leaf, Fragment.text_pseudo, List.replicate_succ, List.cons_append,
        List.append_assoc, List.cons.injEq] at ht
      obtain ⟨rfl, rfl⟩ := ht
      rw [read_of_sign rfl (by decide)]
      exact (readPseudo_colons colons hn hend).trans (readArguments_leaf (colons + 1) n hopen)
  | @call colons n inside _ hn he =>
      simp only [text, if_true, List.replicate_succ, List.cons_append, List.append_assoc,
        List.nil_append, List.cons.injEq] at ht
      obtain ⟨rfl, rfl⟩ := ht
      rw [read_of_sign rfl (by decide)]
      exact (readPseudo_colons colons hn (nameEnds_of_sign rfl (by decide) _)).trans
        (readArguments_call (colons + 1) n t he)
  | @openCall colons n inside hn he =>
      simp only [text, Bool.false_eq_true, if_false, List.replicate_succ, List.cons_append,
        List.append_assoc, List.append_nil, List.cons.injEq] at ht
      obtain ⟨rfl, rfl⟩ := ht
      rw [read_of_sign rfl (by decide)]
      refine (readPseudo_colons colons hn (nameEnds_of_sign rfl (by decide) _)).trans ?_
      simp [readArguments, he]
  | @combinator lead trail _ d hlead hd htrail hend =>
      rw [text_leaf, Fragment.text_combinator, List.append_assoc, List.cons_append] at ht
      have hc : isSpace c = true ∨ isCombinator c = true := by
        cases lead with
        | nil => exact .inr ((List.cons.inj ht).1 ▸ hd)
        | cons e u =>
            have he : isSpace e = true := List.all_eq_true.1 hlead e (by simp)
            exact .inl ((List.cons.inj ht).1 ▸ he)
      rw [read_of_gap hc, ← ht, readGap_combinator hlead hd htrail hend]
  | universal =>
      simp only [text_leaf, Fragment.text_universal, List.cons_append, List.nil_append,
        List.cons.injEq] at ht
      obtain ⟨rfl, rfl⟩ := ht
      rw [read_of_sign rfl (by decide)]
      rfl
  | @whitespace d u _ hs hend =>
      rw [text_leaf, Fragment.text_whitespace] at ht
      have hd : isSpace d = true := List.all_eq_true.1 hs d (by simp)
      have hc : isSpace c = true := (List.cons.inj ht).1 ▸ hd
      rw [read_of_gap (.inl hc), ← ht, readGap_whitespace hs hend]
  | string hq hp hend =>
      simp only [text_leaf, Fragment.text_string, List.cons_append, List.append_assoc,
        List.nil_append, List.cons.injEq] at ht
      obtain ⟨rfl, rfl⟩ := ht
      rw [read_of_quote hq, readString, splitString_closed hp hend]
      rfl
  | lineString hq hp hend hline =>
      simp only [text_leaf, Fragment.text_string, List.cons_append, List.cons.injEq] at ht
      obtain ⟨rfl, rfl⟩ := ht
      rw [read_of_quote hq, readString, splitString_line hp hend hline (ne_of_isNewline hline hq)]
  | openString hq hp =>
      simp only [text_leaf, Fragment.text_string, List.append_nil, List.cons.injEq] at ht
      obtain ⟨rfl, rfl⟩ := ht
      rw [read_of_quote hq, readString, splitString_open hp]
  | comment hp hstar =>
      simp only [text_leaf, Fragment.text_comment, List.cons_append, List.append_assoc,
        List.nil_append, List.cons.injEq] at ht
      obtain ⟨rfl, rfl⟩ := ht
      rw [read_of_sign rfl (by decide)]
      simp [readSign_slash, readComment, comment?, splitComment_closed hp hstar]
  | openComment hp =>
      simp only [text_leaf, Fragment.text_comment, List.append_nil, List.cons.injEq] at ht
      obtain ⟨rfl, rfl⟩ := ht
      rw [read_of_sign rfl (by decide)]
      simp [readSign_slash, readComment, comment?, splitComment_open hp]
  | raw hraw =>
      simp only [text_leaf, Fragment.text_raw, List.cons_append, List.nil_append,
        List.cons.injEq] at ht
      obtain ⟨rfl, rfl⟩ := ht
      rw [read, hraw.name]
      exact readSign_of_startsNothing hraw

/-- Reading takes a lexeme off a text and leaves the rest just when the lexeme stands in front of the
rest and the two make up the text. -/
theorem read_eq_iff {x : Lexeme} {t r : Text} {c : Char} :
    read c r = (x, t) ↔ x.text ++ t = c :: r ∧ Stands x t := by
  constructor
  · intro h
    have happ := read_append c r
    have hstands := stands_read c r
    rw [h] at happ hstands
    exact ⟨happ, hstands⟩
  · rintro ⟨happ, hstands⟩
    exact read_of_stands hstands happ

theorem Stands.text_ne_nil {x : Lexeme} {t : Text} (h : Stands x t) : x.text ≠ [] := by
  cases h with
  | identifier hn hend => simpa using hn.ne_nil
  | _ => simp [text]

end Lexeme

/-- A lexeme standing in front of a text is the first fragment, and the text is read in turn. -/
theorem tokenize_of_stands {x : Lexeme} {t : Text} (h : x.Stands t) :
    tokenize (x.text ++ t) = x.fragment :: tokenize t := by
  obtain ⟨c, r, hcr⟩ := List.exists_cons_of_ne_nil (List.append_ne_nil_of_left_ne_nil h.text_ne_nil t)
  rw [hcr, tokenize_cons, Lexeme.read_of_stands h hcr]

/-- An attribute test by itself is read as one. -/
theorem tokenize_attr (inside : Text) (h : Encloses '[' ']' inside) :
    tokenize ('[' :: inside ++ [']']) = [.attr ('[' :: inside ++ [']'])] := by
  have hread := tokenize_of_stands (Lexeme.Stands.attr (t := []) h)
  simpa [Lexeme.fragment] using hread

/-- The first fragment of a text was read from a lexeme that stands in front of the rest. -/
theorem exists_stands_of_tokenize {s : Text} {f : Fragment} {fs : List Fragment}
    (h : tokenize s = f :: fs) :
    ∃ x t, Lexeme.Stands x t ∧ s = x.text ++ t ∧ x.fragment = f ∧ tokenize t = fs := by
  cases s with
  | nil => exact absurd h (by simp)
  | cons c r =>
      obtain ⟨hf, hfs⟩ := List.cons.inj ((tokenize_cons c r).symm.trans h)
      exact ⟨(Lexeme.read c r).1, (Lexeme.read c r).2, Lexeme.stands_read c r,
        (Lexeme.read_append c r).symm, hf, hfs⟩

end StyleScope.Selector
