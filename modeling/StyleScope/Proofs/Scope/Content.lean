import StyleScope.Proofs.Scope.Expansion

/-! # What scoping keeps of a selector

Scoping drops the names and parentheses of the pseudo selectors that it writes out, and nothing
else. What is left of a selector without them is its `content`. The scoped selector is the content
with tokens put in at some places: take the content out of it, and what remains is one token behind
the other (`Adds`).

A boundary is written out for what it is, with the same tokens wherever its part stands and whether
parts are marked there or not.
-/
namespace StyleScope.Scope
open Text Selector

/-- The third text is made up of the first two, each with its characters in their order. -/
inductive Woven : Text → Text → Text → Prop
  | nil : Woven [] [] []
  | keep {u v w : Text} (c : Char) : Woven u v w → Woven (c :: u) v (c :: w)
  | add {u v w : Text} (c : Char) : Woven u v w → Woven u (c :: v) (c :: w)

theorem Woven.kept (u : Text) : Woven u [] u := by
  induction u with
  | nil => exact .nil
  | cons c u ih => exact .keep c ih

theorem Woven.added (v : Text) : Woven [] v v := by
  induction v with
  | nil => exact .nil
  | cons c v ih => exact .add c ih

theorem Woven.append {u v w u' v' w' : Text} (h : Woven u v w) (h' : Woven u' v' w') :
    Woven (u ++ u') (v ++ v') (w ++ w') := by
  induction h with
  | nil => exact h'
  | keep c _ ih => exact .keep c ih
  | add c _ ih => exact .add c ih

/-- The texts that scoping puts into a selector. -/
def Context.tokens (ctx : Context) : List Text :=
  [ctx.elementToken, ctx.hostToken, slotSelector, " > ".toList, [' ']]

/-- The output is the content with tokens put in. -/
def Adds (ctx : Context) (content output : Text) : Prop :=
  ∃ added : List Text, (∀ a ∈ added, a ∈ ctx.tokens) ∧ Woven content added.flatten output

/-- The texts put in where a boundary is written out with its arguments. -/
def Boundary.tokens (ctx : Context) : Boundary → List Fragment → List Text
  | host, _ => [ctx.hostToken]
  | hostContext, [] => [ctx.hostToken]
  | hostContext, _ :: _ => [[' '], ctx.hostToken]
  | slotted, _ => [slotSelector, ctx.elementToken, " > ".toList]

/-- The text of a segment without the wrappers of what is written out. -/
def segmentContent : Segment → Text
  | .separator f => f.text
  | .part [] => []
  | .part (f :: fs) =>
    if f.escape?.isSome then render f.trimmedArguments ++ render fs
    else render ((f :: fs).flatMap writtenOut)

/-- The text of a selector without the wrappers of what is written out. -/
def content (t : Text) : Text :=
  let segments := segment (tokenize t)
  if isMalformed segments then t else segments.flatMap segmentContent

section
variable {ctx : Context} {u v w x : Text}

theorem Adds.kept (u : Text) : Adds ctx u u := ⟨[], by simp, .kept u⟩

theorem Adds.token (h : u ∈ ctx.tokens) : Adds ctx [] u := by
  refine ⟨[u], by simpa using h, ?_⟩
  rw [List.flatten_singleton]
  exact .added u

theorem Adds.append (h : Adds ctx u v) (h' : Adds ctx w x) : Adds ctx (u ++ w) (v ++ x) := by
  obtain ⟨added, hadded, hwoven⟩ := h
  obtain ⟨added', hadded', hwoven'⟩ := h'
  refine ⟨added ++ added', List.forall_mem_append.2 ⟨hadded, hadded'⟩, ?_⟩
  rw [List.flatten_append]
  exact hwoven.append hwoven'

end

section
variable (ctx : Context)

theorem Boundary.mem_tokens (b : Boundary) (arguments : List Fragment) :
    ∀ a ∈ b.tokens ctx arguments, a ∈ ctx.tokens := by
  cases b with
  | host => simp [Boundary.tokens, Context.tokens]
  | hostContext =>
      cases arguments with
      | nil => simp [Boundary.tokens, Context.tokens]
      | cons f fs => simp [Boundary.tokens, Context.tokens]
  | slotted => simp [Boundary.tokens, Context.tokens]

theorem woven_hostText (arguments : List Fragment) :
    Woven (render arguments) ctx.hostToken (hostText ctx arguments) := by
  cases arguments with
  | nil => exact .added ctx.hostToken
  | cons f fs =>
      rw [hostText]
      split
      · -- the type selector in front of the token, and the rest behind it
        have htype := (Woven.kept f.text).append (.added ctx.hostToken)
        simpa using htype.append (.kept (render fs))
      · simpa using (Woven.added ctx.hostToken).append (.kept (render (f :: fs)))

theorem woven_hostContextText (arguments : List Fragment) :
    Woven (render arguments) (Boundary.hostContext.tokens ctx arguments).flatten
      (hostContextText ctx arguments) := by
  cases arguments with
  | nil => simpa [Boundary.tokens, hostContextText] using Woven.added ctx.hostToken
  | cons f fs =>
      have htokens := Woven.added ([' '] ++ ctx.hostToken)
      simpa [Boundary.tokens, hostContextText] using (Woven.kept (render (f :: fs))).append htokens

theorem woven_slottedText (arguments : List Fragment) :
    Woven (render arguments) (Boundary.slotted.tokens ctx arguments).flatten
      (slottedText ctx arguments) := by
  have htokens := Woven.added (slotSelector ++ ctx.elementToken ++ " > ".toList)
  simpa [Boundary.tokens, slottedText] using htokens.append (.kept (render arguments))

/-- A boundary is written out as its arguments with its tokens put in. -/
theorem woven_expandFragment {f : Fragment} {b : Boundary} (h : boundary? f = some b) :
    Woven (render f.trimmedArguments) (b.tokens ctx f.trimmedArguments).flatten
      (expandFragment ctx f) := by
  rw [expandFragment, h]
  cases b with
  | host => simpa [Boundary.tokens] using woven_hostText ctx f.trimmedArguments
  | hostContext => exact woven_hostContextText ctx f.trimmedArguments
  | slotted => exact woven_slottedText ctx f.trimmedArguments

theorem adds_expandFragment (f : Fragment) :
    Adds ctx (render (writtenOut f)) (expandFragment ctx f) := by
  cases hb : boundary? f with
  | none =>
      rw [writtenOut_of_none hb, expandFragment, hb, render_cons, render_nil, List.append_nil]
      exact .kept f.text
  | some b =>
      rw [writtenOut_of_some hb]
      exact ⟨_, b.mem_tokens ctx _, woven_expandFragment ctx hb⟩

theorem adds_flatMap_expandFragment (part : List Fragment) :
    Adds ctx (render (part.flatMap writtenOut)) (part.flatMap (expandFragment ctx)) := by
  induction part with
  | nil => exact .kept []
  | cons f fs ih =>
      rw [List.flatMap_cons, List.flatMap_cons, render_append]
      exact (adds_expandFragment ctx f).append ih

theorem adds_markAfter (anchor : Fragment → Bool) (part : List Fragment) :
    Adds ctx (render part) (markAfter anchor ctx.elementToken part) := by
  induction part with
  | nil => exact .kept []
  | cons f fs ih =>
      rw [markAfter, render_cons]
      split
      · have htoken : Adds ctx [] ctx.elementToken := .token (by simp [Context.tokens])
        simpa using ((Adds.kept f.text).append htoken).append (.kept (render fs))
      · exact (Adds.kept f.text).append ih

theorem flatMap_writtenOut {part : List Fragment} (h : ∀ f ∈ part, boundary? f = none) :
    part.flatMap writtenOut = part := by
  induction part with
  | nil => rfl
  | cons f fs ih =>
      obtain ⟨hf, hfs⟩ := List.forall_mem_cons.1 h
      rw [List.flatMap_cons, writtenOut_of_none hf, ih hfs, List.singleton_append]

theorem adds_scopePart (selected : Bool) (part : List Fragment) :
    Adds ctx (render (part.flatMap writtenOut)) (scopePart ctx selected part) := by
  unfold scopePart
  split
  · exact adds_flatMap_expandFragment ctx part
  · next hb =>
    have hplain : ∀ f ∈ part, boundary? f = none := by simpa using hb
    rw [flatMap_writtenOut hplain]
    split
    · exact adds_markAfter ctx _ part
    · exact .kept (render part)

theorem adds_escapeText (e : Escape) (f : Fragment) (fs : List Fragment) :
    Adds ctx (render f.trimmedArguments ++ render fs) (escapeText ctx e (f :: fs)) := by
  have hrest : Adds ctx (render f.trimmedArguments ++ render fs)
      (render f.trimmedArguments ++ render fs) := .kept _
  cases e with
  | global => exact hrest
  | «local» =>
      have hhost : Adds ctx [] ctx.hostToken := .token (by simp [Context.tokens])
      have hspace : Adds ctx [] [' '] := .token (by simp [Context.tokens])
      simpa [escapeText] using (hhost.append hspace).append hrest

theorem adds_scopeSegments (n k : Nat) (gs : List Segment) :
    Adds ctx (gs.flatMap segmentContent) (scopeSegments ctx n k gs) := by
  induction gs generalizing k with
  | nil => exact .kept []
  | cons g gs ih =>
      rw [List.flatMap_cons]
      cases g with
      | separator f => exact (Adds.kept f.text).append (ih k)
      | part fs =>
          rw [scopeSegments]
          cases fs with
          | nil => exact (adds_scopePart ctx _ []).append (ih (k + 1))
          | cons f fs =>
              have hsame : escape? (f :: fs) = f.escape? := rfl
              rw [hsame, segmentContent]
              cases he : f.escape? with
              | none => exact (adds_scopePart ctx _ (f :: fs)).append (ih (k + 1))
              | some e => exact (adds_escapeText ctx e f fs).append (ih k)

theorem scopeSegments_append (n k : Nat) (gs hs : List Segment) :
    scopeSegments ctx n k (gs ++ hs) =
      scopeSegments ctx n k gs ++ scopeSegments ctx n (k + gs.countP isCounted) hs := by
  induction gs generalizing k with
  | nil => rfl
  | cons g gs ih =>
      cases g with
      | separator f => simp [scopeSegments, isCounted, ih]
      | part fs =>
          rw [List.cons_append, scopeSegments, scopeSegments]
          cases he : escape? fs with
          | none => simp [isCounted, he, ih, Nat.add_right_comm k, ← Nat.add_assoc]
          | some e => simp [isCounted, he, ih]

/-- A part with a boundary is written out whatever parts are marked and wherever it stands. -/
theorem scopeSelector_boundary (parts : Parts) {t : Text} {before after : List Segment}
    {part : List Fragment} (hwell : isMalformed (segment (tokenize t)) = false)
    (hsegments : segment (tokenize t) = before ++ .part part :: after)
    (hescape : escape? part = none) (hboundary : ∃ f ∈ part, boundary? f ≠ none) :
    ∃ u v, scopeSelector { ctx with parts } t = u ++ part.flatMap (expandFragment ctx) ++ v ∧
      Adds ctx (before.flatMap segmentContent) u ∧ Adds ctx (after.flatMap segmentContent) v := by
  let ctx' : Context := { ctx with parts }
  let n := (segment (tokenize t)).countP isCounted
  let k := 0 + before.countP isCounted
  have hany : (part.any fun f => (boundary? f).isSome) = true := by
    obtain ⟨f, hf, hne⟩ := hboundary
    exact List.any_eq_true.2 ⟨f, hf, Option.isSome_iff_ne_none.2 hne⟩
  have hpart : scopeSegments ctx' n k (.part part :: after) =
      part.flatMap (expandFragment ctx) ++ scopeSegments ctx' n (k + 1) after := by
    rw [scopeSegments, hescape]
    dsimp only
    rw [scopePart, if_pos hany]
    rfl
  refine ⟨scopeSegments ctx' n 0 before, scopeSegments ctx' n (k + 1) after, ?_,
    adds_scopeSegments ctx' n 0 before, adds_scopeSegments ctx' n (k + 1) after⟩
  calc scopeSelector ctx' t
      = scopeSegments ctx' n 0 (segment (tokenize t)) := if_neg (by simp [hwell])
    _ = scopeSegments ctx' n 0 before ++ scopeSegments ctx' n k (.part part :: after) := by
        rw [hsegments, scopeSegments_append]
    _ = scopeSegments ctx' n 0 before ++ part.flatMap (expandFragment ctx) ++
          scopeSegments ctx' n (k + 1) after := by rw [hpart, List.append_assoc]

end

/-- A scoped selector is its content with tokens put in. A part with a boundary is written out
whatever parts are marked and wherever it stands, each boundary as its arguments with its own
tokens. -/
theorem scopeSelector_content (ctx : Context) (t : Text) :
    Adds ctx (content t) (scopeSelector ctx t) ∧
      (∀ (parts : Parts) (before after : List Segment) (part : List Fragment),
        isMalformed (segment (tokenize t)) = false →
        segment (tokenize t) = before ++ .part part :: after → escape? part = none →
        (∃ f ∈ part, boundary? f ≠ none) →
        ∃ u v, scopeSelector { ctx with parts } t = u ++ part.flatMap (expandFragment ctx) ++ v ∧
          Adds ctx (before.flatMap segmentContent) u ∧
          Adds ctx (after.flatMap segmentContent) v) ∧
      ∀ f b, boundary? f = some b →
        Woven (render f.trimmedArguments) (b.tokens ctx f.trimmedArguments).flatten
          (expandFragment ctx f) := by
  refine ⟨?_, ?_, fun f b => woven_expandFragment ctx⟩
  · rw [content, scopeSelector]
    split
    · exact .kept t
    · exact adds_scopeSegments ctx _ 0 _
  · intro parts before after part hwell hsegments hescape hboundary
    exact scopeSelector_boundary ctx parts hwell hsegments hescape hboundary

/-- No part is marked, and the part between the two escapes is still written out. -/
theorem scopeSelector_content_unmarked :
    let ctx : Context := ⟨"s".toList, "[s]".toList, "[s-host]".toList, ⟨false, false, false⟩⟩
    let t : Text := ":global( p ).a .b:host(i.c)::slotted(q) > :local(b)".toList
    let before : List Segment :=
      [.part
          [.function 1 "global".toList
            [.whitespace [' '], .identifier ['p'], .whitespace [' ']] true, .className ['a']],
        .separator (.whitespace [' '])]
    let part : List Fragment :=
      [.className ['b'], .function 1 "host".toList [.identifier ['i'], .className ['c']] true,
        .function 2 "slotted".toList [.identifier ['q']] true]
    let after : List Segment :=
      [.separator (.combinator " > ".toList),
        .part [.function 1 "local".toList [.identifier ['b']] true]]
    isMalformed (segment (tokenize t)) = false ∧
      segment (tokenize t) = before ++ .part part :: after ∧ escape? part = none ∧
      (∃ f ∈ part, boundary? f ≠ none) ∧
      Adds ctx "p.a .bi.cq > b".toList
        "p.a .bi[s-host].cslot[slotted][s] > q > [s-host] b".toList ∧
      ∃ u v, scopeSelector ctx t = u ++ ".bi[s-host].cslot[slotted][s] > q".toList ++ v ∧
        Adds ctx "p.a ".toList u ∧ Adds ctx " > b".toList v := by
  intro ctx t before part after
  have hwell : isMalformed (segment (tokenize t)) = false := by decide +kernel
  have hsegments : segment (tokenize t) = before ++ .part part :: after := by
    with_unfolding_all rfl
  have hescape : escape? part = none := by decide +kernel
  have hsome : ∃ f ∈ part, boundary? f ≠ none := by decide +kernel
  obtain ⟨hadds, hparts, -⟩ := scopeSelector_content ctx t
  have hcontent : content t = "p.a .bi.cq > b".toList := by decide +kernel
  have hscoped : scopeSelector ctx t =
      "p.a .bi[s-host].cslot[slotted][s] > q > [s-host] b".toList := by decide +kernel
  have hpart : part.flatMap (expandFragment ctx) = ".bi[s-host].cslot[slotted][s] > q".toList := by
    decide +kernel
  have hbefore : before.flatMap segmentContent = "p.a ".toList := by decide +kernel
  have hafter : after.flatMap segmentContent = " > b".toList := by decide +kernel
  have hwritten := hparts ctx.parts before after part hwell hsegments hescape hsome
  rw [hcontent, hscoped] at hadds
  rw [hpart, hbefore, hafter] at hwritten
  exact ⟨hwell, hsegments, hescape, hsome, hadds, hwritten⟩

end StyleScope.Scope
