import Mathlib.Data.List.Forall2
import StyleScope.Proofs.Selector.Grouping
import StyleScope.Proofs.Selector.Lookahead
import StyleScope.Proofs.Text.Brackets

/-! # What a comment says

A comment of a selector is read up to its first `*/`, whatever it says, and the fragments around it
look no further than its slash. Only the search for a closing bracket knows nothing of comments: it
looks through those between the brackets as through any other text. So what a comment says bears on
the fragments around it through the brackets that are open there and through nothing else
(`rereads_of_emptyCommentAt`), and it bears on nothing if it is inert to them.
-/
namespace StyleScope.Selector
open Text

/-- A name does not leave a backslash open. -/
theorem NameText.escapedAfter {n : Text} (h : NameText n) : escapedAfter n = false := by
  induction h with
  | nil => rfl
  | char hc _ ih =>
      rwa [escapedAfter_cons]
      rintro rfl
      exact absurd hc (by decide)
  | @escape r d _ ih => exact (escapedAfter_append (u := ['\\', d]) rfl r).trans ih

theorem ne_backslash_of_isSpace {s : Text} (h : s.all isSpace = true) : ∀ c ∈ s, c ≠ '\\' := by
  rintro c hc rfl
  exact absurd (List.all_eq_true.1 h _ hc) (by decide)

theorem ne_backslash_of_isQuote {q : Char} (h : isQuote q = true) : q ≠ '\\' := by
  rintro rfl
  exact absurd h (by decide)

/-- No fragment but the last can leave a backslash open. -/
theorem Lexeme.Stands.escapedAfter {x : Lexeme} {t : Text} (h : Stands x t) (ht : t ≠ []) :
    escapedAfter x.text = false := by
  cases h with
  | identifier hn _ =>
      rw [text_leaf, Fragment.text_identifier]
      exact hn.nameText.escapedAfter
  | className hn _ =>
      rw [text_leaf, Fragment.text_className, escapedAfter_cons (by decide)]
      exact hn.nameText.escapedAfter
  | id hn _ =>
      rw [text_leaf, Fragment.text_id, escapedAfter_cons (by decide)]
      exact hn.nameText.escapedAfter
  | attr _ =>
      rw [text_leaf, Fragment.text_attr]
      exact escapedAfter_concat (by decide) _
  | pseudo hn _ _ =>
      have hcolons (k : Nat) : Text.escapedAfter (List.replicate k ':') = false :=
        escapedAfter_of_forall_ne fun c hc => by simp [List.eq_of_mem_replicate hc]
      rw [text_leaf, Fragment.text_pseudo, escapedAfter_append (hcolons _)]
      exact hn.nameText.escapedAfter
  | call _ _ => exact escapedAfter_concat (by decide) _
  | openCall _ _ => exact absurd rfl ht
  | @combinator lead trail _ d hlead hd htrail _ =>
      have hne : d ≠ '\\' := by
        rintro rfl
        exact absurd hd (by decide)
      rw [text_leaf, Fragment.text_combinator, escapedAfter_append_cons hne]
      exact escapedAfter_of_forall_ne (ne_backslash_of_isSpace htrail)
  | universal => rfl
  | whitespace hs _ =>
      rw [text_leaf, Fragment.text_whitespace]
      exact escapedAfter_of_forall_ne (ne_backslash_of_isSpace hs)
  | string hq _ _ =>
      rw [text_leaf, Fragment.text_string]
      exact escapedAfter_concat (ne_backslash_of_isQuote hq) _
  | lineString hq _ hend _ =>
      rw [text_leaf, Fragment.text_string, escapedAfter_cons (ne_backslash_of_isQuote hq)]
      exact hend
  | openString _ _ => exact absurd rfl ht
  | comment _ _ =>
      rw [text_leaf, Fragment.text_comment]
      exact escapedAfter_concat (by decide) _
  | openComment _ => exact absurd rfl ht
  | @raw c t hraw =>
      have hne : c ≠ '\\' := by
        rintro rfl
        obtain ⟨d, r, rfl⟩ := List.exists_cons_of_ne_nil ht
        have hsome := isSome_name?_cons '\\' (d :: r)
        rw [hraw.name] at hsome
        exact absurd hsome (by simp)
      rw [text_leaf, Fragment.text_raw, escapedAfter_cons hne]
      rfl

def commentOf (body : Text) : Text := ['/', '*'] ++ body ++ ['*', '/']

theorem passes_commentScan {body : Text} {star : Bool} (h : ¬['*', '/'] <:+: body)
    (hstar : star = true → body.head? ≠ some '/') :
    commentScan.Passes star (body ++ ['*']) := by
  induction body generalizing star with
  | nil => simp [commentScan]
  | cons c r ih =>
      have hstop : commentScan.stops star c = false := by
        refine Bool.eq_false_iff.2 fun hs => ?_
        obtain ⟨htrue, rfl⟩ : star = true ∧ c = '/' := by simpa [commentScan] using hs
        exact hstar htrue rfl
      refine Scan.passes_cons.2 ⟨hstop, ih (fun hr => h (List.infix_cons hr)) fun hc hr => ?_⟩
      obtain rfl : c = '*' := by simpa [commentScan] using hc
      obtain ⟨u, rfl⟩ := List.head?_eq_some_iff.1 hr
      exact h (List.prefix_append ['*', '/'] u).isInfix

/-- A comment with any body stands where a comment may. -/
theorem stands_commentOf {body : Text} (h : ¬['*', '/'] <:+: body) (t : Text) :
    Lexeme.Stands (.leaf (.comment (commentOf body))) t := by
  have hpass : commentScan.Passes false (body ++ ['*']) := passes_commentScan h (by simp)
  have hafter : commentScan.after false (body ++ ['*']) = true := by
    rw [Scan.after_append]
    rfl
  simpa [commentOf] using Lexeme.Stands.comment (t := t) hpass hafter

theorem tokenize_commentOf {body : Text} (h : ¬['*', '/'] <:+: body) (t : Text) :
    tokenize (commentOf body ++ t) = .comment (commentOf body) :: tokenize t := by
  simpa [Lexeme.fragment] using tokenize_of_stands (stands_commentOf h t)

/-- An empty comment stands behind the text `p`, between the given brackets. -/
inductive EmptyCommentAt : List (Char × Char) → Text → List Fragment → Prop
  | here {fs : List Fragment} : EmptyCommentAt [] [] (.comment (commentOf []) :: fs)
  | behind {brackets : List (Char × Char)} {p : Text} {fs : List Fragment} {f : Fragment} :
      f ≠ .raw ['['] → EmptyCommentAt brackets p fs →
      EmptyCommentAt brackets (f.text ++ p) (f :: fs)
  /-- A bracket that is never closed. -/
  | behindBracket {brackets : List (Char × Char)} {p : Text} {fs : List Fragment} :
      EmptyCommentAt brackets p fs →
      EmptyCommentAt (('[', ']') :: brackets) ('[' :: p) (.raw ['['] :: fs)
  | inside {brackets : List (Char × Char)} {p name : Text} {fs arguments : List Fragment}
      {colons : Nat} {closed : Bool} : EmptyCommentAt brackets p arguments →
      EmptyCommentAt (('(', ')') :: brackets) (List.replicate colons ':' ++ name ++ '(' :: p)
        (.function colons name arguments closed :: fs)

theorem emptyCommentAt_call {colons : Nat} {name q t : Text} {closed : Bool}
    (h : (Lexeme.call colons name (commentOf [] ++ q) closed).Stands t) :
    EmptyCommentAt [('(', ')')] (List.replicate colons ':' ++ name ++ ['('])
      (tokenize ((Lexeme.call colons name (commentOf [] ++ q) closed).text ++ t)) := by
  rw [tokenize_of_stands h, Lexeme.fragment, tokenize_commentOf (by simp)]
  exact .inside .here

/-- Fragments that differ at most inside a comment or between parentheses. -/
inductive SameKind : Fragment → Fragment → Prop
  | refl (f : Fragment) : SameKind f f
  | comment (a b : Text) : SameKind (.comment a) (.comment b)
  | function (colons : Nat) (name : Text) (fs gs : List Fragment) (closed : Bool) :
      SameKind (.function colons name fs closed) (.function colons name gs closed)

theorem inert_commentOf {b : Char × Char} (hb : b = ('(', ')') ∨ b = ('[', ']')) {body : Text}
    (h : Inert b.1 b.2 body) : Inert b.1 b.2 (commentOf body) := by
  obtain rfl | rfl := hb
  · have hopen : Inert '(' ')' ['/', '*'] := by decide
    have hend : Inert '(' ')' ['*', '/'] := by decide
    exact (hopen.append h).append hend
  · have hopen : Inert '[' ']' ['/', '*'] := by decide
    have hend : Inert '[' ']' ['*', '/'] := by decide
    exact (hopen.append h).append hend

section
variable {p q body : Text}

theorem encloses_commentOf (h : Encloses '(' ')' (p ++ commentOf [] ++ q))
    (hp : escapedAfter p = false) (hbody : Inert '(' ')' body) :
    Encloses '(' ')' (p ++ commentOf body ++ q) := by
  have hempty : Inert '(' ')' (commentOf []) := by decide
  have hnew : Inert '(' ')' (commentOf body) := inert_commentOf (.inl rfl) hbody
  rw [encloses_inert_iff hempty hp] at h
  rwa [encloses_inert_iff hnew hp]

theorem splitClosing?_commentOf {b : Char × Char} (hb : b = ('(', ')') ∨ b = ('[', ']'))
    (h : splitClosing? b.1 b.2 (p ++ commentOf [] ++ q) = none) (hp : escapedAfter p = false)
    (hbody : Inert b.1 b.2 body) : splitClosing? b.1 b.2 (p ++ commentOf body ++ q) = none := by
  have hempty : Inert b.1 b.2 (commentOf []) := inert_commentOf hb inert_nil
  have hnew : Inert b.1 b.2 (commentOf body) := inert_commentOf hb hbody
  rw [splitClosing?_eq_none_iff, passes_inert_iff hempty hp] at h
  rwa [splitClosing?_eq_none_iff, passes_inert_iff hnew hp]

/-- The fragments stay of the same kinds when the comment behind `p` says something else. -/
structure Rereads (body p q : Text) (fs : List Fragment) : Prop where
  settled : escapedAfter p = false
  same : List.Forall₂ SameKind fs (tokenize (p ++ commentOf body ++ q))
  looks : LooksLike (p ++ commentOf [] ++ q) (p ++ commentOf body ++ q)

theorem rereads_here (hbody : ¬['*', '/'] <:+: body) (q : Text) :
    Rereads body [] q (.comment (commentOf []) :: tokenize q) where
  settled := rfl
  same := by
    rw [List.nil_append, tokenize_commentOf hbody]
    exact .cons (.comment _ _) (List.forall₂_same.2 fun f _ => .refl f)
  looks := by
    have hempty : Lexeme.Stands (.leaf (.comment (commentOf []))) q :=
      stands_commentOf (by simp) q
    simpa using Lexeme.looksLike_of_alike (.comment _ _) hempty (stands_commentOf hbody q)

theorem rereads_behind {x : Lexeme} {fs : List Fragment} (h : Rereads body p q fs)
    (hx : x.Stands (p ++ commentOf [] ++ q)) (hx' : x.Stands (p ++ commentOf body ++ q)) :
    Rereads body (x.text ++ p) q (x.fragment :: fs) where
  settled := by
    rw [escapedAfter_append (hx.escapedAfter (by simp [commentOf]))]
    exact h.settled
  same := by
    rw [List.append_assoc, List.append_assoc, ← List.append_assoc p, tokenize_of_stands hx']
    exact .cons (.refl _) h.same
  looks := by
    simpa using Lexeme.looksLike_of_alike (.refl x) hx hx'

theorem rereads_inside {colons : Nat} {name t : Text} {closed : Bool} {arguments : List Fragment}
    (h : Rereads body p q arguments)
    (hx : (Lexeme.call colons name (p ++ commentOf [] ++ q) closed).Stands t)
    (hx' : (Lexeme.call colons name (p ++ commentOf body ++ q) closed).Stands t) :
    Rereads body (List.replicate colons ':' ++ name ++ '(' :: p)
      (q ++ (if closed then [')'] else []) ++ t)
      (.function colons name arguments closed :: tokenize t) := by
  have htext (c : Text) : List.replicate colons ':' ++ name ++ '(' :: p ++ commentOf c ++
      (q ++ (if closed then [')'] else []) ++ t) =
      (Lexeme.call colons name (p ++ commentOf c ++ q) closed).text ++ t := by
    simp [Lexeme.text]
  refine ⟨?_, ?_, ?_⟩
  · rw [escapedAfter_append_cons (by decide)]
    exact h.settled
  · rw [htext, tokenize_of_stands hx']
    exact .cons (.function _ _ _ _ _) (List.forall₂_same.2 fun f _ => .refl f)
  · rw [htext, htext]
    exact Lexeme.looksLike_of_alike (.call _ _ _ _ _) hx hx'

end

/-- What a comment says bears on the fragments around it only through the brackets around it. -/
theorem rereads_of_emptyCommentAt {brackets : List (Char × Char)} {p t : Text} {fs : List Fragment}
    (h : EmptyCommentAt brackets p fs) (ht : tokenize t = fs) {body : Text}
    (hbody : ¬['*', '/'] <:+: body) (hinert : ∀ b ∈ brackets, Inert b.1 b.2 body) :
    ∃ q, t = p ++ commentOf [] ++ q ∧ Rereads body p q fs := by
  -- from the comment outwards: what stands around it is read as before, for what is behind it looks
  -- as before and no bracket open around it is closed in another place
  induction h generalizing t with
  | here =>
      obtain ⟨x, q, hx, rfl, hf, rfl⟩ := exists_stands_of_tokenize ht
      exact ⟨q, by rw [← Lexeme.text_fragment, hf]; simp, rereads_here hbody q⟩
  | @behind _ p _ _ hf _ ih =>
      obtain ⟨x, u, hx, rfl, rfl, hu⟩ := exists_stands_of_tokenize ht
      obtain ⟨q, rfl, h⟩ := ih hu hinert
      have hx' := hx.congr h.looks fun hraw => absurd (by rw [hraw]; rfl) hf
      rw [Lexeme.text_fragment]
      exact ⟨q, by simp, rereads_behind h hx hx'⟩
  | @behindBracket _ p _ _ ih =>
      obtain ⟨x, u, hx, rfl, hf, hu⟩ := exists_stands_of_tokenize ht
      obtain ⟨q, rfl, h⟩ := ih hu fun b hb => hinert b (by simp [hb])
      cases x with
      | leaf f =>
          obtain rfl : f = .raw ['['] := hf
          have hnone : splitClosing? '[' ']' (p ++ commentOf [] ++ q) = none := by
            cases hx with
            | raw hraw => exact hraw.bracket rfl
          have hnone' : splitClosing? '[' ']' (p ++ commentOf body ++ q) = none :=
            splitClosing?_commentOf (.inr rfl) hnone h.settled (hinert _ (by simp))
          exact ⟨q, by simp, rereads_behind h hx (hx.congr h.looks fun _ => hnone')⟩
      | call colons n a closed => exact absurd hf (by simp [Lexeme.fragment])
  | @inside _ p name _ _ colons closed _ ih =>
      obtain ⟨x, u, hx, rfl, hf, rfl⟩ := exists_stands_of_tokenize ht
      cases x with
      | leaf f =>
          obtain rfl : f = .function _ _ _ _ := hf
          cases hx
      | call colons n a closed =>
          obtain ⟨rfl, rfl, ha, rfl⟩ := Fragment.function.inj hf
          obtain ⟨q, rfl, h⟩ := ih ha fun b hb => hinert b (by simp [hb])
          have hparen : Inert '(' ')' body := hinert ('(', ')') (by simp)
          have hx' : (Lexeme.call colons n (p ++ commentOf body ++ q) closed).Stands u := by
            cases hx with
            | call hn he => exact .call hn (encloses_commentOf he h.settled hparen)
            | openCall hn he =>
                exact .openCall hn (splitClosing?_commentOf (.inl rfl) he h.settled hparen)
          exact ⟨_, by simp [Lexeme.text], rereads_inside h hx hx'⟩

section
variable {f g : Fragment} (h : SameKind f g)
include h

theorem SameKind.joins : Fragment.joins (some f) = Fragment.joins (some g) := by
  cases h with
  | refl => rfl
  | comment a b => rfl
  | function colons name fs gs closed => rfl

theorem SameKind.separates (before after : Option Fragment) :
    f.separates before after = g.separates before after := by
  cases h with
  | refl => rfl
  | comment a b => rfl
  | function colons name fs gs closed => rfl

theorem SameKind.isUnbalanced : f.isUnbalanced = g.isUnbalanced := by
  cases h with
  | refl => rfl
  | comment a b => rfl
  | function colons name fs gs closed => rfl

end

/-- Segments with fragments of the same kinds. -/
inductive SameShape : Segment → Segment → Prop
  | part {fs gs : List Fragment} : List.Forall₂ SameKind fs gs → SameShape (.part fs) (.part gs)
  | separator {f g : Fragment} : SameKind f g → SameShape (.separator f) (.separator g)

theorem sameShape_attach {f g : Fragment} {gs hs : List Segment} (h : SameKind f g)
    (hgs : List.Forall₂ SameShape gs hs) (separates : Bool) :
    List.Forall₂ SameShape (Segment.attach f separates gs) (Segment.attach g separates hs) := by
  cases separates with
  | true => exact .cons (.separator h) hgs
  | false =>
      cases hgs with
      | nil => exact .cons (.part (.cons h .nil)) .nil
      | cons hseg htail =>
          cases hseg with
          | part hparts => exact .cons (.part (.cons h hparts)) htail
          | separator hs => exact .cons (.part (.cons h .nil)) (.cons (.separator hs) htail)

theorem sameShape_segmentAfter {fs gs : List Fragment} {before before' : Option Fragment}
    (h : List.Forall₂ SameKind fs gs) (hbefore : Fragment.joins before = Fragment.joins before') :
    List.Forall₂ SameShape (segmentAfter before fs) (segmentAfter before' gs) := by
  induction h generalizing before before' with
  | nil => exact .nil
  | @cons f g fs gs hfg hrest ih =>
      have hhead : Fragment.joins fs.head? = Fragment.joins gs.head? := by
        cases hrest with
        | nil => rfl
        | cons hd _ => exact hd.joins
      rw [segmentAfter, segmentAfter, hfg.separates, g.separates_congr hbefore hhead]
      exact sameShape_attach hfg (ih hfg.joins) _

theorem any_isUnbalanced_congr {fs gs : List Fragment} (h : List.Forall₂ SameKind fs gs) :
    fs.any Fragment.isUnbalanced = gs.any Fragment.isUnbalanced := by
  induction h with
  | nil => rfl
  | cons hfg _ ih => rw [List.any_cons, List.any_cons, hfg.isUnbalanced, ih]

theorem map_outline_of_sameShape {gs hs : List Segment} (h : List.Forall₂ SameShape gs hs) :
    gs.map Segment.outline = hs.map Segment.outline := by
  induction h with
  | nil => rfl
  | cons hseg _ ih =>
      rw [List.map_cons, List.map_cons, ih]
      cases hseg with
      | part hparts => rw [Segment.outline, Segment.outline, any_isUnbalanced_congr hparts]
      | separator hfg =>
          cases hfg with
          | refl => rfl
          | comment a b => rfl
          | function colons name fs gs closed => rfl

theorem isMalformed_congr {fs gs : List Fragment} (h : List.Forall₂ SameKind fs gs) :
    isMalformed (segment fs) = isMalformed (segment gs) :=
  isMalformed_of_map_outline (map_outline_of_sameShape (sameShape_segmentAfter h rfl))

/-- What a comment says does not decide whether a selector is malformed if it is inert to the
brackets around the comment. -/
theorem isMalformed_comment {brackets : List (Char × Char)} {p q body : Text}
    (h : EmptyCommentAt brackets p (tokenize (p ++ commentOf [] ++ q)))
    (hbody : ¬['*', '/'] <:+: body) (hinert : ∀ b ∈ brackets, Inert b.1 b.2 body) :
    isMalformed (segment (tokenize (p ++ commentOf body ++ q))) =
      isMalformed (segment (tokenize (p ++ commentOf [] ++ q))) := by
  obtain ⟨q', hq, hreads⟩ := rereads_of_emptyCommentAt h rfl hbody hinert
  obtain rfl : q = q' := List.append_cancel_left hq
  exact (isMalformed_congr hreads.same).symm

/-- Brackets that are closed in the comment are no harm. -/
theorem isMalformed_comment_balanced :
    let p : Text := ":is(".toList
    let q : Text := " .b)".toList
    let body : Text := "(a) [b]".toList
    EmptyCommentAt [('(', ')')] p (tokenize (p ++ commentOf [] ++ q)) ∧
      ¬['*', '/'] <:+: body ∧ Inert '(' ')' body ∧
      isMalformed (segment (tokenize (p ++ commentOf body ++ q))) =
        isMalformed (segment (tokenize (p ++ commentOf [] ++ q))) := by
  intro p q body
  have hstands : (Lexeme.call 1 "is".toList (commentOf [] ++ " .b".toList) true).Stands [] :=
    .call (by decide) (by decide)
  have hcomment : EmptyCommentAt [('(', ')')] p (tokenize (p ++ commentOf [] ++ q)) :=
    emptyCommentAt_call hstands
  have hbody : ¬['*', '/'] <:+: body := by decide +kernel
  have hinert : Inert '(' ')' body := by decide +kernel
  refine ⟨hcomment, hbody, hinert, isMalformed_comment hcomment hbody ?_⟩
  simpa using hinert

/-- A parenthesis in the comment closes the arguments, and a stray one is left. -/
theorem isMalformed_comment_parenthesis :
    let p : Text := ":is(".toList
    let q : Text := ".a)".toList
    let body : Text := ")".toList
    EmptyCommentAt [('(', ')')] p (tokenize (p ++ commentOf [] ++ q)) ∧
      ¬['*', '/'] <:+: body ∧
      isMalformed (segment (tokenize (p ++ commentOf [] ++ q))) = false ∧
      isMalformed (segment (tokenize (p ++ commentOf body ++ q))) = true := by
  intro p q body
  have hstands : (Lexeme.call 1 "is".toList (commentOf [] ++ ".a".toList) true).Stands [] :=
    .call (by decide) (by decide)
  have hcomment : EmptyCommentAt [('(', ')')] p (tokenize (p ++ commentOf [] ++ q)) :=
    emptyCommentAt_call hstands
  exact ⟨hcomment, by decide +kernel, by decide +kernel, by decide +kernel⟩

end StyleScope.Selector
