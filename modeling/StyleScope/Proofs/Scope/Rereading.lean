import StyleScope.Proofs.Scope.Placement
import StyleScope.Proofs.Selector.Grouping
import StyleScope.Proofs.Selector.Lookahead

/-! # Reading a scoped selector again

The element token is put into a selector as text, so the scoped selector has to be read again
before it means anything. An attribute test put behind a fragment that can carry it changes the
reading of no fragment before it, for it looks the same to them, and of none after it, for reading
starts afresh behind it (`tokenize_of_inserted`). It also stays in the compound part it was put into
(`segmentAfter_of_markedFrom`). So a scoped selector is read as the fragments of the selector with
one attribute test behind each anchor, and has the same parts and separators.
-/
namespace StyleScope.Scope
open Text Selector

/-- Fragments with an attribute test put behind some of those that can carry one. -/
inductive Inserted (token : Text) : List Fragment → List Fragment → Prop
  | nil : Inserted token [] []
  | keep {fs gs : List Fragment} (f : Fragment) : Inserted token fs gs →
      Inserted token (f :: fs) (f :: gs)
  | mark {fs gs : List Fragment} {f : Fragment} : f.isScopable = true → Inserted token fs gs →
      Inserted token (f :: fs) (f :: .attr token :: gs)

theorem Inserted.refl (token : Text) (fs : List Fragment) : Inserted token fs fs := by
  induction fs with
  | nil => exact .nil
  | cons f fs ih => exact .keep f ih

theorem Inserted.append {token : Text} {fs gs fs' gs' : List Fragment} (h : Inserted token fs gs)
    (h' : Inserted token fs' gs') : Inserted token (fs ++ fs') (gs ++ gs') := by
  induction h with
  | nil => exact h'
  | keep f _ ih => exact .keep f ih
  | mark hf _ ih => exact .mark hf ih

theorem stands_token {token : Text} (h : tokenize token = [.attr token]) (t : Text) :
    Lexeme.Stands (.leaf (.attr token)) t ∧ ∃ r, token = '[' :: r := by
  obtain ⟨x, u, hx, -, hfragment, -⟩ := exists_stands_of_tokenize h
  cases hx with
  | attr he =>
      obtain rfl : _ = token := Fragment.attr.inj hfragment
      exact ⟨.attr he, _, rfl⟩
  | _ => exact absurd hfragment (by simp [Lexeme.fragment])

/-- Fragments with attribute tests inserted are read again in front of a text that looks like the
one they stood in front of. -/
theorem tokenize_append_of_inserted {token : Text} (htoken : tokenize token = [.attr token])
    {t u u' : Text} {fs gs : List Fragment} (ht : tokenize t = fs ++ tokenize u)
    (hu : LooksLike u u') (hbalanced : ∀ f ∈ fs, f.isUnbalanced = false)
    (h : Inserted token fs gs) :
    tokenize (render gs ++ u') = gs ++ tokenize u' ∧ LooksLike t (render gs ++ u') := by
  -- a fragment is read again because what follows it looks as before, so the look is carried along
  induction h generalizing t with
  | nil =>
      obtain rfl : t = u := by
        have hrender := congrArg render ht
        rwa [List.nil_append, render_tokenize, render_tokenize] at hrender
      exact ⟨rfl, hu⟩
  | @keep fs gs f _ ih =>
      rw [List.cons_append] at ht
      obtain ⟨x, v, hx, rfl, rfl, hv⟩ := exists_stands_of_tokenize ht
      obtain ⟨htail, hlooks⟩ := ih hv fun g hg => hbalanced g (by simp [hg])
      have hx' : Lexeme.Stands x (render gs ++ u') := by
        refine hx.congr hlooks fun hraw => ?_
        have := hbalanced x.fragment (by simp)
        rw [hraw] at this
        exact absurd this (by decide)
      rw [render_cons, Lexeme.text_fragment, List.append_assoc]
      refine ⟨?_, Lexeme.looksLike_of_alike (.refl x) hx hx'⟩
      rw [tokenize_of_stands hx', htail, List.cons_append]
  | @mark fs gs f hf _ ih =>
      rw [List.cons_append] at ht
      obtain ⟨x, v, hx, rfl, rfl, hv⟩ := exists_stands_of_tokenize ht
      obtain ⟨htail, -⟩ := ih hv fun g hg => hbalanced g (by simp [hg])
      obtain ⟨hattr, r, hr⟩ := stands_token htoken (render gs ++ u')
      have hx' : Lexeme.Stands x (token ++ (render gs ++ u')) := by
        rw [hr, List.cons_append]
        exact hx.of_isScopable hf _
      rw [render_cons, render_cons, Lexeme.text_fragment, Fragment.text_attr, List.append_assoc,
        List.append_assoc]
      refine ⟨?_, Lexeme.looksLike_of_alike (.refl x) hx hx'⟩
      have hmiddle : tokenize (token ++ (render gs ++ u')) =
          .attr token :: tokenize (render gs ++ u') := by
        simpa [Lexeme.fragment] using tokenize_of_stands hattr
      rw [tokenize_of_stands hx', hmiddle, htail, List.cons_append, List.cons_append]

/-- Fragments with attribute tests inserted are read again from their text. -/
theorem tokenize_of_inserted {token : Text} (htoken : tokenize token = [.attr token]) {t : Text}
    {fs gs : List Fragment} (ht : tokenize t = fs) (hbalanced : ∀ f ∈ fs, f.isUnbalanced = false)
    (h : Inserted token fs gs) : tokenize (render gs) = gs ∧ LooksLike t (render gs) := by
  have hend : tokenize t = fs ++ tokenize [] := by rw [tokenize_nil, List.append_nil, ht]
  have hread := tokenize_append_of_inserted htoken hend (.refl []) hbalanced h
  rwa [tokenize_nil, List.append_nil, List.append_nil] at hread

/-- A part with the element token behind its anchor, if it is `marked` and has one: behind its first
type selector, or else behind its first id, class or attribute test. -/
inductive MarkedPart (ctx : Context) (marked : Prop) : List Fragment → List Fragment → Prop
  | afterType {left right : List Fragment} {f : Fragment} : marked → f.isType = true →
      (∀ g ∈ left, g.isType = false) →
      MarkedPart ctx marked (left ++ f :: right) (left ++ f :: .attr ctx.elementToken :: right)
  | afterTest {left right : List Fragment} {f : Fragment} : marked →
      (∀ g ∈ left ++ f :: right, g.isType = false) → f.isScopable = true →
      (∀ g ∈ left, g.isScopable = false) →
      MarkedPart ctx marked (left ++ f :: right) (left ++ f :: .attr ctx.elementToken :: right)
  | verbatim {part : List Fragment} : (¬marked ∨ ∀ f ∈ part, f.isScopable = false) →
      MarkedPart ctx marked part part

/-- Segments with their marked parts among `n`, the parts being numbered from `k` on. -/
inductive MarkedFrom (ctx : Context) (n : Nat) : Nat → List Segment → List Segment → Prop
  | nil {k : Nat} : MarkedFrom ctx n k [] []
  | separator {k : Nat} {gs gs' : List Segment} (f : Fragment) : MarkedFrom ctx n k gs gs' →
      MarkedFrom ctx n k (.separator f :: gs) (.separator f :: gs')
  | part {k : Nat} {gs gs' : List Segment} {p p' : List Fragment} :
      MarkedPart ctx (Marked ctx.parts k n) p p' → MarkedFrom ctx n (k + 1) gs gs' →
      MarkedFrom ctx n k (.part p :: gs) (.part p' :: gs')

/-- A marked part is unchanged, or has a token behind a fragment that can carry it. -/
theorem MarkedPart.eq_or_exists {ctx : Context} {marked : Prop} {p p' : List Fragment}
    (h : MarkedPart ctx marked p p') :
    p' = p ∨ ∃ left f right, f.isScopable = true ∧ p = left ++ f :: right ∧
      p' = left ++ f :: .attr ctx.elementToken :: right := by
  cases h with
  | @afterType left right f _ hf _ =>
      have hs : f.isScopable = true := by
        cases f with
        | identifier n => rfl
        | universal => rfl
        | _ => exact absurd hf (by simp [Fragment.isType])
      exact .inr ⟨left, f, right, hs, rfl, rfl⟩
  | @afterTest left right f _ _ hf _ => exact .inr ⟨left, f, right, hf, rfl, rfl⟩
  | verbatim _ => exact .inl rfl

theorem joins_of_isScopable {f : Fragment} (h : f.isScopable = true) :
    Fragment.joins (some f) = true := by
  cases f with
  | identifier n => rfl
  | universal => rfl
  | id n => rfl
  | className n => rfl
  | attr t => rfl
  | _ => exact absurd h (by simp [Fragment.isScopable])

theorem separates_of_isScopable {f : Fragment} (h : f.isScopable = true)
    (before after : Option Fragment) : f.separates before after = false := by
  have hj := joins_of_isScopable h
  simp only [Fragment.joins, Bool.and_eq_true, Bool.not_eq_true'] at hj
  rw [Fragment.separates, hj.1, hj.2]
  rfl

section
variable {f : Fragment} {left right : List Fragment} (token : Text)

theorem glued_insert (hf : f.isScopable = true) {before after : Option Fragment}
    (h : Glued before after (left ++ f :: right)) :
    Glued before after (left ++ f :: .attr token :: right) := by
  induction left generalizing before with
  | nil =>
      refine ⟨separates_of_isScopable hf _ _, separates_of_isScopable rfl _ _, ?_⟩
      exact h.2.congr (joins_of_isScopable hf) rfl
  | cons g left ih =>
      refine ⟨?_, ih h.2⟩
      rw [← h.1]
      refine g.separates_congr rfl ?_
      cases left with
      | nil => rfl
      | cons d left => rfl

theorem joins_getLast?_insert (hf : f.isScopable = true) :
    Fragment.joins (left ++ f :: .attr token :: right).getLast? =
      Fragment.joins (left ++ f :: right).getLast? := by
  cases right with
  | nil =>
      rw [List.getLast?_append, List.getLast?_append, List.getLast?_cons_cons,
        List.getLast?_singleton, List.getLast?_singleton, Option.some_or, Option.some_or,
        joins_of_isScopable hf]
      rfl
  | cons d right =>
      rw [List.getLast?_append, List.getLast?_append, List.getLast?_cons_cons,
        List.getLast?_cons_cons, List.getLast?_cons_cons]

end

section
variable {ctx : Context} {marked : Prop} {p p' : List Fragment} (h : MarkedPart ctx marked p p')
include h

theorem MarkedPart.inserted : Inserted ctx.elementToken p p' := by
  obtain rfl | ⟨left, f, right, hf, rfl, rfl⟩ := h.eq_or_exists
  · exact .refl _ _
  · exact (Inserted.refl _ left).append (.mark hf (.refl _ right))

theorem MarkedPart.head? : p'.head? = p.head? := by
  obtain rfl | ⟨left, f, right, -, rfl, rfl⟩ := h.eq_or_exists
  · rfl
  · cases left <;> rfl

theorem MarkedPart.glued {before after : Option Fragment} (hp : Glued before after p) :
    Glued before after p' := by
  obtain rfl | ⟨left, f, right, hf, rfl, rfl⟩ := h.eq_or_exists
  · exact hp
  · exact glued_insert ctx.elementToken hf hp

theorem MarkedPart.joins_getLast? :
    Fragment.joins p'.getLast? = Fragment.joins p.getLast? := by
  obtain rfl | ⟨left, f, right, hf, rfl, rfl⟩ := h.eq_or_exists
  · rfl
  · exact joins_getLast?_insert ctx.elementToken hf

theorem MarkedPart.any_isUnbalanced :
    p'.any Fragment.isUnbalanced = p.any Fragment.isUnbalanced := by
  obtain rfl | ⟨left, f, right, -, rfl, rfl⟩ := h.eq_or_exists
  · rfl
  · simp [Fragment.isUnbalanced]

end

section
variable {ctx : Context} {n k : Nat} {gs gs' : List Segment} (h : MarkedFrom ctx n k gs gs')
include h

theorem MarkedFrom.inserted :
    Inserted ctx.elementToken (gs.flatMap Segment.fragments) (gs'.flatMap Segment.fragments) := by
  induction h with
  | nil => exact .nil
  | separator f _ ih => exact .keep f ih
  | part hp _ ih => exact hp.inserted.append ih

theorem MarkedFrom.head? :
    (gs'.flatMap Segment.fragments).head? = (gs.flatMap Segment.fragments).head? := by
  induction h with
  | nil => rfl
  | separator f _ _ => rfl
  | part hp _ ih =>
      rw [List.flatMap_cons, List.flatMap_cons, List.head?_append, List.head?_append,
        show (Segment.part _).fragments.head? = _ from hp.head?, ih]
      rfl

theorem MarkedFrom.startsApart (hg : StartsApart gs) : StartsApart gs' := by
  cases h with
  | nil => rfl
  | separator f _ => rfl
  | part hp _ => exact absurd hg (by simp [StartsApart, Segment.isPart])

theorem MarkedFrom.map_outline : gs'.map Segment.outline = gs.map Segment.outline := by
  induction h with
  | nil => rfl
  | separator f _ ih => rw [List.map_cons, List.map_cons, ih]
  | part hp _ ih =>
      rw [List.map_cons, List.map_cons, ih, Segment.outline, Segment.outline, hp.any_isUnbalanced]

theorem MarkedFrom.countP_isPart : gs'.countP Segment.isPart = gs.countP Segment.isPart := by
  have hcount := congrArg (List.countP id) (map_isPart_of_map_outline h.map_outline)
  rwa [List.countP_map, List.countP_map] at hcount

theorem MarkedFrom.separators :
    (gs'.filter fun g => !g.isPart) = gs.filter fun g => !g.isPart := by
  induction h with
  | nil => rfl
  | separator f _ ih => rw [List.filter_cons_of_pos rfl, List.filter_cons_of_pos rfl, ih]
  | part hp _ ih =>
      rw [List.filter_cons_of_neg (by simp [Segment.isPart]),
        List.filter_cons_of_neg (by simp [Segment.isPart]), ih]

/-- The tokens stay in the parts they were put into. -/
theorem segmentAfter_of_markedFrom {before : Option Fragment} {fs : List Fragment}
    (hgs : segmentAfter before fs = gs) :
    segmentAfter before (gs'.flatMap Segment.fragments) = gs' := by
  induction h generalizing before fs with
  | nil => rfl
  | @separator _ gs gs' f h ih =>
      obtain ⟨rest, rfl, hsep, hrest⟩ := segmentAfter_eq_separator hgs
      -- whether a comment separates depends on its neighbours, and the next fragment is the same
      have hhead : (gs'.flatMap Segment.fragments).head? = rest.head? := by
        rw [h.head?, hrest, fragments_segmentAfter]
      have htail := ih hrest.symm
      rw [List.flatMap_cons]
      change segmentAfter before (f :: gs'.flatMap Segment.fragments) = _
      rw [segmentAfter, hhead, hsep, htail]
      rfl
  | @part _ gs gs' p p' hp h ih =>
      obtain ⟨rest, rfl, hne, hglued, hrest, hapart⟩ := segmentAfter_eq_part hgs
      have hhead : (gs'.flatMap Segment.fragments).head? = rest.head? := by
        rw [h.head?, hrest, fragments_segmentAfter]
      have htail : segmentAfter p'.getLast? (gs'.flatMap Segment.fragments) = gs' :=
        (segmentAfter_congr hp.joins_getLast? _).trans (ih hrest.symm)
      have hne' : p' ≠ [] := by
        rintro rfl
        exact hne (List.head?_eq_none_iff.1 hp.head?.symm)
      have hpart := segmentAfter_part hne' (hhead ▸ hp.glued hglued)
        (htail.symm ▸ h.startsApart hapart)
      rw [List.flatMap_cons]
      exact hpart.trans (by rw [htail])

end

section
variable (ctx : Context) {n k : Nat}

/-- The scoped form of a plain part is the part, marked. -/
theorem exists_markedPart {p : List Fragment} (hk : k < n) (hplain : IsPlain p) :
    ∃ p', MarkedPart ctx (Marked ctx.parts k n) p p' ∧
      scopePart ctx (ctx.parts.selects k n) p = render p' := by
  have hpiece : ScopedPiece ctx k n (.part p) (scopePart ctx (ctx.parts.selects k n) p) :=
    scopedPiece_scopePart hk hplain.1
  generalize scopePart ctx (ctx.parts.selects k n) p = piece at hpiece ⊢
  cases hpiece with
  | escape he => exact absurd he (by simp [hplain.1])
  | boundary _ hb =>
      obtain ⟨f, hf, hne⟩ := hb
      exact absurd (hplain.2 f hf) hne
  | afterType _ hm hf hleft => exact ⟨_, .afterType hm hf hleft, by simp⟩
  | afterTest _ hm hnone hf hleft => exact ⟨_, .afterTest hm hnone hf hleft, by simp⟩
  | verbatim _ h => exact ⟨p, .verbatim h, rfl⟩

theorem exists_markedFrom {gs : List Segment} (hplain : ∀ p, Segment.part p ∈ gs → IsPlain p)
    (hn : k + gs.countP Segment.isPart ≤ n) :
    ∃ gs', MarkedFrom ctx n k gs gs' ∧
      scopeSegments ctx n k gs = render (gs'.flatMap Segment.fragments) := by
  induction gs generalizing k with
  | nil => exact ⟨[], .nil, rfl⟩
  | cons g gs ih =>
      have hplain' : ∀ p, Segment.part p ∈ gs → IsPlain p := fun p hp => hplain p (by simp [hp])
      cases g with
      | separator f =>
          rw [List.countP_cons_of_neg (by simp [Segment.isPart])] at hn
          obtain ⟨gs', hgs', htext⟩ := ih hplain' hn
          exact ⟨.separator f :: gs', .separator f hgs', by
            simp [scopeSegments, htext, Segment.fragments]⟩
      | part p =>
          rw [List.countP_cons_of_pos rfl] at hn
          have hp : IsPlain p := hplain p (by simp)
          obtain ⟨p', hp', hpart⟩ := exists_markedPart ctx (show k < n by omega) hp
          obtain ⟨gs', hgs', htext⟩ := ih (k := k + 1) hplain' (by omega)
          exact ⟨.part p' :: gs', .part hp' hgs', by
            simp [scopeSegments, hp.1, hpart, htext, Segment.fragments]⟩

end

instance (part : List Fragment) : Decidable (IsPlain part) := inferInstanceAs (Decidable (_ ∧ _))

theorem countP_isCounted {gs : List Segment}
    (hescape : ∀ p, Segment.part p ∈ gs → escape? p = none) :
    gs.countP isCounted = gs.countP Segment.isPart := by
  refine List.countP_congr fun g hg => ?_
  cases g with
  | separator f => rfl
  | part p => simp [isCounted, Segment.isPart, hescape p hg]

theorem countP_isCounted_of_isPlain {gs : List Segment}
    (hplain : ∀ p, Segment.part p ∈ gs → IsPlain p) :
    gs.countP isCounted = gs.countP Segment.isPart :=
  countP_isCounted fun p hp => (hplain p hp).1

theorem isUnbalanced_of_separates {before after : Option Fragment} {f : Fragment}
    (h : f.separates before after = true) : f.isUnbalanced = false := by
  cases f with
  | function colons name arguments closed =>
      exact absurd h (by simp [Fragment.separates, Fragment.isComment, Fragment.isSeparator])
  | raw t => exact absurd h (by simp [Fragment.separates, Fragment.isComment, Fragment.isSeparator])
  | _ => rfl

theorem exists_isBroken_of_attach {f : Fragment} {separates pending : Bool} {gs : List Segment}
    (h : isBroken pending (Segment.attach f separates gs) = false) :
    (separates = true ∨ f.isUnbalanced = false) ∧ ∃ pending, isBroken pending gs = false := by
  cases separates with
  | true =>
      refine ⟨.inl rfl, ?_⟩
      change isBroken pending (.separator f :: gs) = false at h
      cases f with
      | combinator t => exact ⟨true, (Bool.or_eq_false_iff.1 h).2⟩
      | _ => exact ⟨pending, h⟩
  | false =>
      by_cases hgs : StartsApart gs
      · rw [attach_startsApart f hgs, isBroken, List.any_cons, List.any_nil, Bool.or_false,
          Bool.or_eq_false_iff] at h
        exact ⟨.inr h.1, false, h.2⟩
      · obtain ⟨ps, tail, rfl⟩ := exists_part_of_not_startsApart hgs
        change isBroken pending (.part (f :: ps) :: tail) = false at h
        rw [isBroken, List.any_cons, Bool.or_assoc, Bool.or_eq_false_iff] at h
        exact ⟨.inr h.1, pending, h.2⟩

/-- In a selector that is not malformed, no fragment is unbalanced. -/
theorem isUnbalanced_of_isBroken {before : Option Fragment} {fs : List Fragment} {pending : Bool}
    (h : isBroken pending (segmentAfter before fs) = false) :
    ∀ f ∈ fs, f.isUnbalanced = false := by
  induction fs generalizing before pending with
  | nil => simp
  | cons f fs ih =>
      obtain ⟨hf, pending, htail⟩ := exists_isBroken_of_attach h
      refine List.forall_mem_cons.2 ⟨?_, ih htail⟩
      obtain hf | hf := hf
      · exact isUnbalanced_of_separates hf
      · exact hf

/-- A plain selector that is not malformed is read in its scoped form as it was read before, with
one attribute test behind each anchor; it has the same parts and separators and is not malformed. -/
theorem tokenize_scopeSelector (ctx : Context) {t : Text} {segments : List Segment}
    (hs : segment (tokenize t) = segments) (h : isMalformed segments = false)
    (hplain : ∀ part, Segment.part part ∈ segments → IsPlain part)
    (htoken : tokenize ctx.elementToken = [.attr ctx.elementToken]) :
    segments.flatMap Segment.fragments = tokenize t ∧
      ∃ marked, MarkedFrom ctx (segments.countP Segment.isPart) 0 segments marked ∧
      tokenize (scopeSelector ctx t) = marked.flatMap Segment.fragments ∧
      segment (tokenize (scopeSelector ctx t)) = marked ∧ isMalformed marked = false ∧
      marked.countP Segment.isPart = segments.countP Segment.isPart ∧
      (marked.filter fun g => !g.isPart) = segments.filter fun g => !g.isPart := by
  obtain ⟨marked, hmarked, htext⟩ :=
    exists_markedFrom ctx hplain (Nat.le_of_eq (Nat.zero_add _))
  have hscoped : scopeSelector ctx t = render (marked.flatMap Segment.fragments) := by
    rw [scopeSelector, hs, if_neg (by simp [h]), countP_isCounted_of_isPlain hplain, htext]
  have hbalanced : ∀ f ∈ tokenize t, f.isUnbalanced = false := by
    rw [isMalformed, Bool.or_eq_false_iff, ← hs] at h
    exact isUnbalanced_of_isBroken h.2
  have hinserted : Inserted ctx.elementToken (tokenize t) (marked.flatMap Segment.fragments) := by
    have := hmarked.inserted
    rwa [← hs, fragments_segment] at this
  have hread : tokenize (scopeSelector ctx t) = marked.flatMap Segment.fragments := by
    rw [hscoped]
    exact (tokenize_of_inserted htoken rfl hbalanced hinserted).1
  have hsegment : segment (tokenize (scopeSelector ctx t)) = marked := by
    rw [hread]
    exact segmentAfter_of_markedFrom hmarked hs
  refine ⟨hs ▸ fragments_segment _, marked, hmarked, hread, hsegment, ?_, hmarked.countP_isPart,
    hmarked.separators⟩
  rw [isMalformed_of_map_outline hmarked.map_outline, h]

/-- The comment stays inside its part, and the arguments of `:not` get no token. -/
theorem tokenize_scopeSelector_comment :
    let ctx : Context := ⟨"s".toList, "[s]".toList, "[s-host]".toList, {}⟩
    let t : Text := ".a + .b/**/i > p:not(.c)".toList
    isMalformed (segment (tokenize t)) = false ∧
      (∀ g ∈ segment (tokenize t), IsPlain g.fragments) ∧
      tokenize ctx.elementToken = [.attr ctx.elementToken] ∧
      scopeSelector ctx t = ".a[s] + .b/**/i > p[s]:not(.c)".toList ∧
      ∃ marked, MarkedFrom ctx 3 0 (segment (tokenize t)) marked ∧
        segment (tokenize (scopeSelector ctx t)) = marked ∧ isMalformed marked = false := by
  intro ctx t
  have h : isMalformed (segment (tokenize t)) = false := by decide +kernel
  have hplain : ∀ g ∈ segment (tokenize t), IsPlain g.fragments := by decide +kernel
  have htoken : tokenize ctx.elementToken = [.attr ctx.elementToken] :=
    tokenize_attr ['s'] (by decide)
  have hcount : (segment (tokenize t)).countP Segment.isPart = 3 := by decide +kernel
  obtain ⟨-, marked, hmarked, -, hsegment, hwell, -⟩ :=
    tokenize_scopeSelector ctx rfl h (fun part hp => hplain (.part part) hp) htoken
  exact ⟨h, hplain, htoken, by decide +kernel, marked, hcount ▸ hmarked, hsegment, hwell⟩

end StyleScope.Scope
