import StyleScope.Proofs.Animation.Padding

/-! # Names amid space and comments

The parameters of keyframes are taken as a name whole, while the value of an animation is read token
by token. So the two agree on a name only if it stands in the parameters by itself: space or a
comment on either side becomes part of the name (`paramsName_eq_iff`), and the scope is put behind
all of it (`scopedParams_eq_iff`). What then becomes of the keyframes and of the animations that
refer to the name inside is said by `renamedByName_iff`.
-/
namespace StyleScope.Animation
open Text Stylesheet

theorem isQuote_of_isWordChar {c : Char} (h : isWordChar c = true) : isQuote c = false := by
  simp only [isWordChar, Bool.not_eq_true', Bool.or_eq_false_iff] at h
  exact h.1.2

def startsPadding (c : Char) : Bool := c = '/' || isSpace c

theorem isQuote_of_startsPadding {c : Char} (h : startsPadding c = true) : isQuote c = false := by
  cases hq : isQuote c with
  | false => rfl
  | true =>
      simp only [isQuote, Bool.or_eq_true, decide_eq_true_eq] at hq
      obtain rfl | rfl := hq
      · exact absurd h (by decide)
      · exact absurd h (by decide)

namespace ValueToken

def isPadding : ValueToken → Bool
  | space _ | comment _ => true
  | _ => false

def isName : ValueToken → Bool
  | word _ | quoted _ => true
  | _ => false

/-- Padding starts with a slash or space. -/
theorem head?_of_isPadding {x : ValueToken} {t : Text} (h : x.Stands t)
    (hx : x.isPadding = true) : ∀ c ∈ x.text.head?, startsPadding c = true := by
  intro c hc
  cases h with
  | comment =>
      obtain rfl := Option.some.inj hc
      rfl
  | space hall =>
      obtain rfl := Option.some.inj hc
      rw [List.all_cons, Bool.and_eq_true] at hall
      simp [startsPadding, hall.1]
  | runsOut hopen =>
      cases hopen with
      | comment =>
          obtain rfl := Option.some.inj hc
          rfl
      | string => exact absurd hx (by simp [isPadding])
      | function => exact absurd hx (by simp [isPadding])
  | _ => exact absurd hx (by simp [isPadding])

/-- A name that has no content to unquote starts with no quote if something follows it. -/
theorem head?_of_isName {x : ValueToken} {t : Text} (h : x.Stands t) (hx : x.isName = true)
    (hquote : unquote? x.text = none) (ht : t ≠ []) : ∀ c ∈ x.text.head?, isQuote c = false := by
  intro c hc
  cases h with
  | string hq =>
      rw [text, unquote?_eq_some_iff.2 ⟨hq, rfl⟩] at hquote
      exact absurd hquote (by simp)
  | word _ hw => exact isQuote_of_isWordChar (hw.isWordChar c (List.mem_of_head? hc))
  | runsOut => exact absurd rfl ht
  | _ => exact absurd hx (by simp [isName])

end ValueToken

/-- What a token leaves behind it holds the tokens behind it. -/
theorem exists_stands_of_valueTokens_eq {v : Text} {xs ys : List ValueToken} {x : ValueToken}
    (h : valueTokens v = xs ++ x :: ys) : ∃ t, x.Stands t ∧ valueTokens t = ys := by
  fun_induction valueTokens v generalizing xs with
  | case1 => exact absurd h (by simp)
  | case2 c r y rest hread ih =>
      cases xs with
      | nil =>
          obtain ⟨rfl, hys⟩ := List.cons.inj h
          exact ⟨rest, (ValueToken.read_eq_iff.1 hread).2, hys⟩
      | cons z xs => exact ih (List.cons.inj h).2

/-- The parameters are a word or a string with space and comments on either side. -/
structure NameAmidPadding (params : Text) (left : List ValueToken) (x : ValueToken)
    (right : List ValueToken) : Prop where
  tokens : valueTokens params = left ++ x :: right
  isName : x.isName = true
  isPadding_left : ∀ y ∈ left, y.isPadding = true
  isPadding_right : ∀ y ∈ right, y.isPadding = true

/-- The scope starts with a character that no padding and no string starts with. -/
theorem exists_nameSuffix_eq_cons (scope : Text) :
    ∃ c u, nameSuffix scope = c :: u ∧ startsPadding c = false ∧ isQuote c = false := by
  unfold nameSuffix scopedName
  split
  · exact ⟨'_', _, rfl, by decide⟩
  · exact ⟨'-', _, rfl, by decide⟩
  · exact ⟨'-', _, rfl, by decide⟩

/-- Behind a name the scope and a quote are told apart. -/
theorem append_quote_ne {q c : Char} (hq : isQuote q = true) (hc : isQuote c = false)
    (n a b : Text) : n ++ q :: a ≠ n ++ c :: b := by
  intro h
  have hhead : q = c := (List.cons.inj (List.append_cancel_left h)).1
  rw [hhead, hc] at hq
  exact absurd hq (by simp)

theorem length_paramsName_le (t : Text) : (paramsName t).length ≤ t.length := by
  unfold paramsName
  split
  · next q n hn =>
    rw [(unquote?_eq_some_iff.1 hn).2, quote, List.cons_append, List.length_cons,
      List.length_append]
    omega
  · exact le_rfl

theorem scopedParams_of_unquote?_eq_none {t : Text} (h : unquote? t = none) (scope : Text) :
    scopedParams t scope = t ++ nameSuffix scope := by
  rw [scopedParams, h]
  exact scopedName_eq_append t scope

theorem scopedParams_quote {q : Char} (hq : isQuote q = true) (n scope : Text) :
    scopedParams (quote q n) scope = q :: (n ++ (nameSuffix scope ++ [q])) := by
  rw [scopedParams, unquote?_eq_some_iff.2 ⟨hq, rfl⟩]
  simp [scopedName_eq_append, quote]

namespace NameAmidPadding
variable {params : Text} {left right : List ValueToken} {x : ValueToken}
  (h : NameAmidPadding params left x right)
include h

theorem params_eq :
    params = left.flatMap ValueToken.text ++ (x.text ++ right.flatMap ValueToken.text) := by
  have htext := text_valueTokens params
  rw [h.tokens, List.flatMap_append, List.flatMap_cons] at htext
  exact htext.symm

theorem exists_stands {y : ValueToken} (hy : y ∈ left ++ x :: right) : ∃ t, y.Stands t := by
  rw [← h.tokens] at hy
  exact exists_stands_of_mem hy

theorem text_ne_nil {y : ValueToken} (hy : y ∈ left ++ x :: right) : y.text ≠ [] := by
  obtain ⟨t, hstands⟩ := h.exists_stands hy
  exact hstands.text_ne_nil

theorem params_ne_nil : params ≠ [] := by
  have hx : x.text ≠ [] := h.text_ne_nil (by simp)
  rw [h.params_eq]
  simp [hx]

theorem head?_flatMap {ys : List ValueToken} (hys : ∀ y ∈ ys, y ∈ left ++ x :: right)
    (hpad : ∀ y ∈ ys, y.isPadding = true) :
    ∀ c ∈ (ys.flatMap ValueToken.text).head?, startsPadding c = true := by
  intro c hc
  cases ys with
  | nil => exact absurd hc (by simp)
  | cons y ys =>
      have hmem : y ∈ y :: ys := List.mem_cons_self
      obtain ⟨t, hstands⟩ := h.exists_stands (hys y hmem)
      rw [List.flatMap_cons, List.head?_append_of_ne_nil _ hstands.text_ne_nil] at hc
      exact ValueToken.head?_of_isPadding hstands (hpad y hmem) c hc

theorem head?_left : ∀ c ∈ (left.flatMap ValueToken.text).head?, startsPadding c = true :=
  h.head?_flatMap (fun _ hy => List.mem_append_left _ hy) h.isPadding_left

theorem head?_right : ∀ c ∈ (right.flatMap ValueToken.text).head?, startsPadding c = true :=
  h.head?_flatMap (fun _ hy => List.mem_append_right _ (List.mem_cons_of_mem x hy))
    h.isPadding_right

theorem flatMap_eq_nil_iff {ys : List ValueToken} (hys : ∀ y ∈ ys, y ∈ left ++ x :: right) :
    ys.flatMap ValueToken.text = [] ↔ ys = [] := by
  cases ys with
  | nil => simp
  | cons y ys =>
      have hne := h.text_ne_nil (hys y List.mem_cons_self)
      simp [hne]

theorem flatMap_left_eq_nil_iff : left.flatMap ValueToken.text = [] ↔ left = [] :=
  h.flatMap_eq_nil_iff fun _ hy => List.mem_append_left _ hy

theorem flatMap_right_eq_nil_iff : right.flatMap ValueToken.text = [] ↔ right = [] :=
  h.flatMap_eq_nil_iff fun _ hy => List.mem_append_right _ (List.mem_cons_of_mem x hy)

theorem head?_name (hquote : unquote? x.text = none) (hright : right ≠ []) :
    ∀ c ∈ x.text.head?, isQuote c = false := by
  obtain ⟨t, hstands, ht⟩ := exists_stands_of_valueTokens_eq h.tokens
  refine ValueToken.head?_of_isName hstands h.isName hquote ?_
  rintro rfl
  exact hright (by rw [← ht, valueTokens_nil])

/-- Quotes around the whole are those of the name, or its opening one and one in a comment. -/
theorem of_unquote? {q : Char} {m : Text} (hm : unquote? params = some (q, m)) :
    left = [] ∧ ∃ n, isQuote q = true ∧ x.text = quote q n ∧
      m ++ [q] = n ++ q :: right.flatMap ValueToken.text := by
  obtain ⟨hq, hparams⟩ := unquote?_eq_some_iff.1 hm
  have happ := hparams.symm.trans h.params_eq
  obtain rfl : left = [] := by
    rw [← h.flatMap_left_eq_nil_iff]
    cases hL : left.flatMap ValueToken.text with
    | nil => rfl
    | cons c L =>
        rw [hL] at happ
        obtain rfl : q = c := (List.cons.inj happ).1
        have hpad := h.head?_left q (by rw [hL]; rfl)
        exact absurd hq (by simp [isQuote_of_startsPadding hpad])
  rw [List.flatMap_nil, List.nil_append] at happ
  refine ⟨rfl, ?_⟩
  cases hx : unquote? x.text with
  | some p =>
      obtain ⟨q', n⟩ := p
      obtain ⟨-, hn⟩ := unquote?_eq_some_iff.1 hx
      rw [hn] at happ
      obtain ⟨rfl, htail⟩ : q = q' ∧ m ++ [q] = n ++ q' :: right.flatMap ValueToken.text := by
        simpa [quote] using happ
      exact ⟨n, hq, hn, htail⟩
  | none =>
      exfalso
      by_cases hright : right = []
      · rw [hright, List.flatMap_nil, List.append_nil] at happ
        rw [← happ, unquote?_eq_some_iff.2 ⟨hq, rfl⟩] at hx
        exact absurd hx (by simp)
      · have hhead : x.text.head? = some q := by
          rw [← List.head?_append_of_ne_nil _ (h.text_ne_nil (by simp)), ← happ]
          rfl
        exact absurd hq (by simp [h.head?_name hx hright q hhead])

/-- The name of the whole is the name inside only if that stands by itself. -/
theorem paramsName_eq_iff : paramsName params = paramsName x.text ↔ left = [] ∧ right = [] := by
  constructor
  · intro heq
    rw [← h.flatMap_left_eq_nil_iff, ← h.flatMap_right_eq_nil_iff]
    cases hm : unquote? params with
    | some p =>
        obtain ⟨q, m⟩ := p
        obtain ⟨rfl, n, hq, hx, htail⟩ := h.of_unquote? hm
        rw [paramsName, hm, paramsName, hx, unquote?_eq_some_iff.2 ⟨hq, rfl⟩] at heq
        obtain rfl : m = n := heq
        exact ⟨rfl, by simpa using htail⟩
    | none =>
        -- the whole is its own name, and no name is longer than its text
        have hle := length_paramsName_le x.text
        rw [← heq, paramsName, hm, h.params_eq] at hle
        simp only [List.length_append] at hle
        constructor
        · apply List.eq_nil_of_length_eq_zero
          omega
        · apply List.eq_nil_of_length_eq_zero
          omega
  · rintro ⟨rfl, rfl⟩
    rw [h.params_eq]
    simp

theorem unquote?_params (hx : unquote? x.text = none) : unquote? params = none := by
  cases hm : unquote? params with
  | none => rfl
  | some p =>
      obtain ⟨-, n, hq, hn, -⟩ := h.of_unquote? hm
      rw [hn, unquote?_eq_some_iff.2 ⟨hq, rfl⟩] at hx
      exact absurd hx (by simp)

section
variable {scope : Text} (heq : scopedParams params scope = left.flatMap ValueToken.text ++
  (scopedParams x.text scope ++ right.flatMap ValueToken.text))
include heq

/-- Behind a name in quotes the next quote is part of what is scoped. -/
theorem right_eq_nil_of_quoted {q : Char} {m : Text} (hm : unquote? params = some (q, m)) :
    right = [] := by
  obtain ⟨c, u, hu, -, hc⟩ := exists_nameSuffix_eq_cons scope
  obtain ⟨rfl, n, hq, hx, htail⟩ := h.of_unquote? hm
  rw [← h.flatMap_right_eq_nil_iff]
  obtain hR | ⟨R, e, hR⟩ := List.eq_nil_or_concat (right.flatMap ValueToken.text)
  · exact hR
  · -- the quote that closes the name is one of its characters now
    obtain ⟨rfl, -⟩ : m = n ++ q :: R ∧ [q] = [e] :=
      List.append_inj' (by rw [htail, hR]; simp) rfl
    rw [(unquote?_eq_some_iff.1 hm).2, hx, scopedParams_quote hq, scopedParams_quote hq, hu] at heq
    have htails : n ++ q :: (R ++ (c :: u ++ [q])) =
        n ++ c :: (u ++ q :: right.flatMap ValueToken.text) := by simpa using heq
    exact absurd htails (append_quote_ne hq hc n _ _)

/-- Without quotes around it all the scope comes last. -/
theorem right_eq_nil_of_unquoted (hm : unquote? params = none) :
    right = [] ∧ unquote? x.text = none := by
  obtain ⟨c, u, hu, hpad, hc⟩ := exists_nameSuffix_eq_cons scope
  rw [scopedParams_of_unquote?_eq_none hm] at heq
  nth_rewrite 1 [h.params_eq] at heq
  rw [List.append_assoc, List.append_cancel_left_eq, List.append_assoc, hu] at heq
  cases hx : unquote? x.text with
  | some p =>
      obtain ⟨q, n⟩ := p
      obtain ⟨hq, hn⟩ := unquote?_eq_some_iff.1 hx
      rw [hn, scopedParams_quote hq, hu, quote] at heq
      have htails : n ++ q :: (right.flatMap ValueToken.text ++ c :: u) =
          n ++ c :: (u ++ q :: right.flatMap ValueToken.text) := by simpa using heq
      exact absurd htails (append_quote_ne hq hc n _ _)
  | none =>
      refine ⟨?_, rfl⟩
      rw [scopedParams_of_unquote?_eq_none hx, List.append_assoc, List.append_cancel_left_eq,
        hu] at heq
      rw [← h.flatMap_right_eq_nil_iff]
      cases hR : right.flatMap ValueToken.text with
      | nil => rfl
      | cons d R =>
          rw [hR] at heq
          obtain rfl : d = c := (List.cons.inj heq).1
          exact absurd (h.head?_right d (by rw [hR]; rfl)) (by simp [hpad])

end

/-- The scope is put behind the name inside only if nothing follows it, and for a name in quotes
only if nothing precedes it either. -/
theorem scopedParams_eq_iff (scope : Text) :
    scopedParams params scope = left.flatMap ValueToken.text ++
        (scopedParams x.text scope ++ right.flatMap ValueToken.text) ↔
      right = [] ∧ (left = [] ∨ unquote? x.text = none) := by
  constructor
  · intro heq
    cases hm : unquote? params with
    | some p => exact ⟨h.right_eq_nil_of_quoted heq hm, .inl (h.of_unquote? hm).1⟩
    | none =>
        obtain ⟨hright, hx⟩ := h.right_eq_nil_of_unquoted heq hm
        exact ⟨hright, .inr hx⟩
  · rintro ⟨rfl, rfl | hx⟩
    · rw [h.params_eq]
      simp
    · rw [scopedParams_of_unquote?_eq_none (h.unquote?_params hx),
        scopedParams_of_unquote?_eq_none hx]
      nth_rewrite 1 [h.params_eq]
      simp

end NameAmidPadding

/-- A token that refers to keyframes of this name is scoped, in its own quotes. -/
structure Follows (scope name : Text) (x : ValueToken) (piece : Text) : Prop where
  word : x = .word name → piece = scopedName name scope
  quoted : ∀ q, isQuote q = true → x = .quoted (quote q name) →
    piece = quote q (scopedName name scope)

theorem RenamedToken.follows {scope name : Text} {names : List Text} {x : ValueToken} {piece : Text}
    (h : RenamedToken scope names x piece) (hname : name ∈ names) : Follows scope name x piece := by
  cases h with
  | word =>
      refine ⟨fun hx => ?_, by simp⟩
      rw [ValueToken.word.inj hx]
  | quoted hq =>
      refine ⟨by simp, fun q hq' hx => ?_⟩
      obtain ⟨rfl, hn⟩ := List.cons.inj (ValueToken.quoted.inj hx)
      rw [List.append_cancel_right hn]
  | other hword hquoted =>
      refine ⟨fun hx => absurd hname (hword name hx), fun q hq hx => ?_⟩
      exact absurd hname (hquoted q name hq hx)

/-- Keyframes whose parameters hold a name amid padding are known by that name: the table has it,
of the parameters only the name is scoped, and the animations that refer to it follow. -/
structure RenamedByName (scope : Text) (s : Sheet) (i : Nat) (r : AtRule)
    (left : List ValueToken) (x : ValueToken) (right : List ValueToken) : Prop where
  key : (renameSheet scope s).2.contains (paramsName x.text) = true
  params : (renameSheet scope s).1.events[i]? = some (.atRule { r with
    params := left.flatMap ValueToken.text ++
      (scopedParams x.text scope ++ right.flatMap ValueToken.text) })
  references : ∀ (j : Nat) (d : Declaration), s.events[j]? = some (.declaration d) →
    d.plainProp = "animation-name".toList →
    ∃ pieces, List.Forall₂ (Follows scope (paramsName x.text)) (valueTokens d.value) pieces ∧
      (renameSheet scope s).1.events[j]? = some (.declaration { d with value := pieces.flatten })

theorem contains_renameSheet_iff {scope n : Text} {s : Sheet} :
    (renameSheet scope s).2.contains n = true ↔ n ∈ declaredNames s.events := by
  unfold Table.contains
  dsimp only [renameSheet]
  rw [get?_tableOf]
  split
  · next h => simp [h]
  · next h => simp [h]

theorem getElem?_events_renameSheet (scope : Text) (s : Sheet) (i : Nat) :
    (renameSheet scope s).1.events[i]? = s.events[i]?.map (Pass.event
      { atRule := renameKeyframes scope,
        declaration := renameDeclaration (tableOf scope (declaredNames s.events)) }) := by
  dsimp only [renameSheet]
  rw [Sheet.events_map (keepsKeyframes_rename scope _), List.getElem?_map]

/-- The animations that refer to a declared name follow it. -/
theorem follows_of_mem_declaredNames {scope n : Text} {s : Sheet} {j : Nat} {d : Declaration}
    (hn : n ∈ declaredNames s.events) (hd : s.events[j]? = some (.declaration d))
    (hprop : d.plainProp = "animation-name".toList) :
    ∃ pieces, List.Forall₂ (Follows scope n) (valueTokens d.value) pieces ∧
      (renameSheet scope s).1.events[j]? =
        some (.declaration { d with value := pieces.flatten }) := by
  let table := tableOf scope (declaredNames s.events)
  refine ⟨(valueTokens d.value).map (renameToken table), ?_, ?_⟩
  · refine List.forall₂_map_right_iff.2 (List.forall₂_same.2 fun x _ => ?_)
    exact (renamedToken_renameToken scope _ x).follows hn
  · have hvalue : renameDeclaration table d =
        { d with value := ((valueTokens d.value).map (renameToken table)).flatten } := by
      rw [renameDeclaration, if_pos hprop, renameNames, List.flatMap_def]
    rw [getElem?_events_renameSheet, hd, ← hvalue]
    rfl

theorem paramsName_mem_declaredNames {events : List Event} {i : Nat} {r : AtRule}
    (hr : events[i]? = some (.atRule r)) (hdef : definesKeyframes r = true) :
    paramsName r.params ∈ declaredNames events := by
  refine List.mem_filterMap.2 ⟨.atRule r, List.mem_of_getElem? hr, ?_⟩
  dsimp only
  rw [if_pos hdef]

section
variable (scope : Text) {s : Sheet} {i : Nat} {r : AtRule} {left right : List ValueToken}
  {x : ValueToken} (hr : s.events[i]? = some (.atRule r)) (hk : r.isKeyframes = true)
  (h : NameAmidPadding r.params left x right)
include hr hk h

/-- Keyframes with a name amid padding are entered under the whole of their parameters, which is
that name only without padding. They are known by the name only if nothing follows it, and nothing
precedes it either unless it is without quotes and the name of other keyframes. -/
theorem renamedByName_iff :
    (renameSheet scope s).2.contains (paramsName r.params) = true ∧
      (renameSheet scope s).1.events[i]? =
        some (.atRule { r with params := scopedParams r.params scope }) ∧
      (paramsName r.params = paramsName x.text ↔ left = [] ∧ right = []) ∧
      (RenamedByName scope s i r left x right ↔
        right = [] ∧ (left = [] ∨
          unquote? x.text = none ∧ paramsName x.text ∈ declaredNames s.events)) := by
  have hdef : definesKeyframes r = true := by simp [definesKeyframes, hk, h.params_ne_nil]
  have hname := paramsName_mem_declaredNames hr hdef
  have hrenamed : (renameSheet scope s).1.events[i]? =
      some (.atRule { r with params := scopedParams r.params scope }) := by
    have hparams : renameKeyframes scope r = { r with params := scopedParams r.params scope } := by
      rw [renameKeyframes, if_pos hdef]
    rw [getElem?_events_renameSheet, hr, ← hparams]
    rfl
  refine ⟨contains_renameSheet_iff.2 hname, hrenamed, h.paramsName_eq_iff, ?_⟩
  constructor
  · intro hby
    have hparams := hby.params
    rw [hrenamed, Option.some.injEq, Event.atRule.injEq] at hparams
    obtain ⟨hright, hleft⟩ := (h.scopedParams_eq_iff scope).1 (congrArg AtRule.params hparams)
    exact ⟨hright, hleft.imp_right fun hx => ⟨hx, contains_renameSheet_iff.1 hby.key⟩⟩
  · rintro ⟨hright, hleft⟩
    have hdeclared : paramsName x.text ∈ declaredNames s.events := by
      obtain hleft | ⟨-, hdeclared⟩ := hleft
      · rwa [← h.paramsName_eq_iff.2 ⟨hleft, hright⟩]
      · exact hdeclared
    refine ⟨contains_renameSheet_iff.2 hdeclared, ?_,
      fun j d => follows_of_mem_declaredNames hdeclared⟩
    rw [hrenamed, (h.scopedParams_eq_iff scope).2 ⟨hright, hleft.imp_right And.left⟩]

end

/-- A comment in front of a name does no harm to it if other keyframes have the name, though it is
entered with the comment as well. -/
theorem renamedByName_second :
    let css : Text := ("@keyframes /**/a\x7b\x7d@keyframes \"a\"\x7b\x7d" ++
      "p\x7banimation-name:a,'a'\x7d").toList
    let r : AtRule := ⟨[], "keyframes".toList, [' '], "/**/a".toList, [], [], true, false⟩
    let left : List ValueToken := [.comment "/**/".toList]
    let x : ValueToken := .word "a".toList
    r.isKeyframes = true ∧ NameAmidPadding r.params left x [] ∧
      ∃ s, parse? css = some s ∧ s.events[0]? = some (.atRule r) ∧
        RenamedByName ['s'] s 0 r left x [] ∧
        (renameSheet ['s'] s).2.contains (paramsName r.params) = true ∧
        paramsName r.params ≠ paramsName x.text := by
  intro css r left x
  have hk : r.isKeyframes = true := by decide +kernel
  have hname : NameAmidPadding r.params left x [] :=
    ⟨by decide +kernel, rfl, by simp [left, ValueToken.isPadding], by simp⟩
  obtain ⟨s, hs⟩ : ∃ s, parse? css = some s := Option.isSome_iff_exists.1 (by decide +kernel)
  have hread : (parse? css).map (fun s => (s.events[0]?, declaredNames s.events)) =
      some (some (.atRule r), ["/**/a".toList, "a".toList]) := by decide +kernel
  rw [hs, Option.map_some, Option.some.injEq, Prod.mk.injEq] at hread
  obtain ⟨hkey, -, hwhole, hby⟩ := renamedByName_iff ['s'] hread.1 hk hname
  have hdeclared : paramsName x.text ∈ declaredNames s.events := by
    rw [hread.2]
    decide
  exact ⟨hk, hname, s, hs, hread.1, hby.2 ⟨rfl, .inr ⟨by decide, hdeclared⟩⟩, hkey,
    fun heq => absurd (hwhole.1 heq).1 (by simp [left])⟩

/-- A comment behind the only name of a sheet is scoped with it, and the animation does not
follow. -/
theorem renamedByName_comment_behind :
    let css : Text := "@keyframes spin/**/\x7b\x7da\x7banimation-name:spin\x7d".toList
    let r : AtRule := ⟨[], "keyframes".toList, [' '], "spin/**/".toList, [], [], true, false⟩
    let x : ValueToken := .word "spin".toList
    let right : List ValueToken := [.comment "/**/".toList]
    r.isKeyframes = true ∧ NameAmidPadding r.params [] x right ∧
      ∃ s, parse? css = some s ∧ s.events[0]? = some (.atRule r) ∧
        (renameSheet ['s'] s).1.text =
          "@keyframes spin/**/-s\x7b\x7da\x7banimation-name:spin\x7d".toList ∧
        (renameSheet ['s'] s).2.entries = [("spin/**/".toList, "spin/**/-s".toList)] ∧
        ¬RenamedByName ['s'] s 0 r [] x right := by
  intro css r x right
  have hname : NameAmidPadding r.params [] x right :=
    ⟨by decide +kernel, rfl, by simp, by simp [right, ValueToken.isPadding]⟩
  obtain ⟨s, hs⟩ : ∃ s, parse? css = some s := Option.isSome_iff_exists.1 (by decide +kernel)
  have hout : (parse? css).map (fun s => (s.events[0]?, (renameSheet ['s'] s).1.text,
      (renameSheet ['s'] s).2)) =
      some (some (.atRule r), "@keyframes spin/**/-s\x7b\x7da\x7banimation-name:spin\x7d".toList,
        ⟨[("spin/**/".toList, "spin/**/-s".toList)]⟩) := by decide +kernel
  rw [hs, Option.map_some, Option.some.injEq, Prod.mk.injEq, Prod.mk.injEq] at hout
  obtain ⟨hr, htext, htable⟩ := hout
  refine ⟨by decide +kernel, hname, s, hs, hr, htext, by rw [htable], fun hby => ?_⟩
  have hkey := hby.key
  rw [htable] at hkey
  exact absurd hkey (by decide)

end StyleScope.Animation
