import Mathlib.Data.List.Flatten
import StyleScope.Proofs.Scope.Rereading
import StyleScope.Proofs.Scope.Tokens
import StyleScope.Proofs.Selector.Alternation
import StyleScope.Proofs.Selector.Slices

/-! # Names in a scoped selector

A boundary is written out as tokens and the fragments between its parentheses, one right behind the
other. The fragments written for a selector are its `expansion`, and this module says how the
expansion is read again. As long as nothing in a part with a boundary is loose, a name can only be
lost to a name in front of it: the type, class and id selectors of the scoped selector are those of
the expansion with names that meet made into one (`Rescoped`). So they all survive just when no name
meets a type selector in the expansion (`nameTests_scopeSelector`).

A host token that is the bare name of a component is a type selector itself, and meets names that
an attribute test would have kept apart.
-/
namespace StyleScope.Scope
open Text Selector

def Boundary.expansion (ctx : Context) : Boundary → List Fragment → List Fragment
  | host, [] => tokenize ctx.hostToken
  | host, f :: fs =>
    if f.isType then f :: (tokenize ctx.hostToken ++ fs) else tokenize ctx.hostToken ++ f :: fs
  | hostContext, [] => tokenize ctx.hostToken
  | hostContext, f :: fs => f :: fs ++ .whitespace [' '] :: tokenize ctx.hostToken
  | slotted, fs =>
    tokenize slotSelector ++ tokenize ctx.elementToken ++ .combinator " > ".toList :: fs

/-- The fragments written for a fragment: for a boundary its tokens and arguments, and itself for any
other. -/
def expansion (ctx : Context) (f : Fragment) : List Fragment :=
  match boundary? f with
  | some b => b.expansion ctx f.trimmedArguments
  | none => [f]

/-- The fragments of the selector that are written for one of its fragments. -/
def writtenOut (f : Fragment) : List Fragment :=
  if (boundary? f).isSome then f.trimmedArguments else [f]

/-- A part that is written as it stands, or no fragment of which can take in another. -/
def IsTight (part : List Fragment) : Prop :=
  (∀ f ∈ part, boundary? f = none) ∨ ∀ f ∈ part, ∀ g ∈ writtenOut f, g.isLoose = false

instance (part : List Fragment) : Decidable (IsTight part) := inferInstanceAs (Decidable (_ ∨ _))

section
variable (ctx : Context) {f : Fragment} {b : Boundary}

theorem expansion_of_none (h : boundary? f = none) : expansion ctx f = [f] := by
  rw [expansion, h]

theorem expansion_of_some (h : boundary? f = some b) :
    expansion ctx f = b.expansion ctx f.trimmedArguments := by
  rw [expansion, h]

theorem writtenOut_of_none (h : boundary? f = none) : writtenOut f = [f] := by
  rw [writtenOut, h]
  rfl

theorem writtenOut_of_some (h : boundary? f = some b) : writtenOut f = f.trimmedArguments := by
  rw [writtenOut, h]
  rfl

theorem flatMap_expansion {part : List Fragment} (h : ∀ f ∈ part, boundary? f = none) :
    part.flatMap (expansion ctx) = part := by
  induction part with
  | nil => rfl
  | cons f fs ih =>
      rw [List.flatMap_cons, expansion_of_none ctx (h f (by simp)),
        ih fun g hg => h g (by simp [hg]), List.singleton_append]

theorem render_expansion (f : Fragment) : render (expansion ctx f) = expandFragment ctx f := by
  unfold expandFragment
  cases hb : boundary? f with
  | none => simp [expansion_of_none ctx hb]
  | some b =>
      rw [expansion_of_some ctx hb]
      generalize f.trimmedArguments = arguments
      cases b with
      | host =>
          cases arguments with
          | nil => exact render_tokenize _
          | cons g gs =>
              cases hg : g.isType with
              | false => simp [Boundary.expansion, hostText, hg]
              | true => simp [Boundary.expansion, hostText, hg]
      | hostContext =>
          cases arguments with
          | nil => exact render_tokenize _
          | cons g gs => simp [Boundary.expansion, hostContextText]
      | slotted => simp [Boundary.expansion, slottedText]

theorem render_flatMap_expansion (part : List Fragment) :
    render (part.flatMap (expansion ctx)) = part.flatMap (expandFragment ctx) := by
  induction part with
  | nil => rfl
  | cons f fs ih =>
      rw [List.flatMap_cons, List.flatMap_cons, render_append, render_expansion, ih]

theorem Boundary.sublist_expansion (b : Boundary) (arguments : List Fragment) :
    List.Sublist arguments (b.expansion ctx arguments) := by
  cases b with
  | host =>
      cases arguments with
      | nil => exact List.nil_sublist _
      | cons g gs =>
          rw [Boundary.expansion]
          split
          · exact (List.sublist_append_right _ _).cons_cons g
          · exact List.sublist_append_right _ _
  | hostContext =>
      cases arguments with
      | nil => exact List.nil_sublist _
      | cons g gs => exact List.sublist_append_left _ _
  | slotted => exact (List.sublist_cons_self _ _).trans (List.sublist_append_right _ _)

/-- What is written out is kept, in its order. -/
theorem writtenOut_sublist_expansion (f : Fragment) :
    List.Sublist (writtenOut f) (expansion ctx f) := by
  cases hb : boundary? f with
  | none => rw [writtenOut_of_none hb, expansion_of_none ctx hb]
  | some b =>
      rw [writtenOut_of_some hb, expansion_of_some ctx hb]
      exact b.sublist_expansion ctx _

end

section
variable {ctx : Context} (h : SingleTokens ctx)
include h

theorem SingleTokens.firm_element : ∀ g ∈ tokenize ctx.elementToken, Firm g := by
  intro g hg
  refine firm_of_mem_tokenize hg ?_
  rw [h.element, List.mem_singleton] at hg
  rw [hg]
  rfl

theorem SingleTokens.firm_host : ∀ g ∈ tokenize ctx.hostToken, Firm g := by
  intro g hg
  refine firm_of_mem_tokenize hg ?_
  obtain hhost | hhost := h.host
  · rw [hhost, List.mem_singleton] at hg
    rw [hg]
    rfl
  · rw [hhost, List.mem_singleton] at hg
    rw [hg]
    rfl

theorem Boundary.firm_expansion (b : Boundary) {arguments : List Fragment}
    (harguments : ∀ g ∈ arguments, Firm g) : ∀ g ∈ b.expansion ctx arguments, Firm g := by
  have helement := h.firm_element
  have hhost := h.firm_host
  cases b with
  | host =>
      cases arguments with
      | nil => exact hhost
      | cons f fs =>
          obtain ⟨hf, hfs⟩ := List.forall_mem_cons.1 harguments
          rw [Boundary.expansion]
          split
          · exact List.forall_mem_cons.2 ⟨hf, List.forall_mem_append.2 ⟨hhost, hfs⟩⟩
          · exact List.forall_mem_append.2 ⟨hhost, harguments⟩
  | hostContext =>
      cases arguments with
      | nil => exact hhost
      | cons f fs =>
          have hspace : Firm (.whitespace [' ']) :=
            firm_gap rfl (Fragment.text_whitespace _) (by decide)
          exact List.forall_mem_append.2 ⟨harguments, List.forall_mem_cons.2 ⟨hspace, hhost⟩⟩
  | slotted =>
      have hslot : ∀ g ∈ tokenize slotSelector, g.isLoose = false := by decide +kernel
      have hchild : Firm (.combinator " > ".toList) :=
        firm_gap rfl (Fragment.text_combinator _) (by decide)
      refine List.forall_mem_append.2 ⟨List.forall_mem_append.2 ⟨?_, helement⟩, ?_⟩
      · exact fun g hg => firm_of_mem_tokenize hg (hslot g hg)
      · exact List.forall_mem_cons.2 ⟨hchild, harguments⟩

theorem firm_expansion {t : Text} {f : Fragment} (hf : f ∈ tokenize t)
    (hloose : ∀ g ∈ writtenOut f, g.isLoose = false) : ∀ g ∈ expansion ctx f, Firm g := by
  cases hb : boundary? f with
  | none =>
      rw [writtenOut_of_none hb] at hloose
      rw [expansion_of_none ctx hb]
      simpa using firm_of_mem_tokenize hf (hloose f (List.mem_singleton_self f))
  | some b =>
      rw [writtenOut_of_some hb] at hloose
      rw [expansion_of_some ctx hb]
      refine b.firm_expansion h fun g hg => ?_
      have hread : g ∈ tokenize (render f.trimmedArguments) := by
        rwa [tokenize_render_trimmedArguments hf]
      exact firm_of_mem_tokenize hread (hloose g hg)

end

theorem Inserted.nameTests {token : Text} {fs gs : List Fragment} (h : Inserted token fs gs) :
    Selector.nameTests gs = Selector.nameTests fs := by
  induction h with
  | nil => rfl
  | keep f _ ih => rw [nameTests_cons, ih, ← nameTests_cons]
  | @mark fs gs f _ _ ih =>
      have hattr : (Fragment.attr token).isNameTest = false := rfl
      rw [nameTests_cons, nameTests_cons_of_neg hattr, ih, ← nameTests_cons]

/-- The text `u` is read with the names of the expansion of `s`. If the segments `gs` of `s` do not
start with a part, then `u` lets the same fragments be read in front of it as `s`, and no name runs
on into it. -/
structure Rescoped (ctx : Context) (gs : List Segment) (s u : Text) : Prop where
  names : nameTests (tokenize u) =
    nameTests (mergeNames ((tokenize s).flatMap (expansion ctx)))
  looks : StartsApart gs → LooksLike s u
  calm : StartsApart gs → Calm u
  head : StartsApart gs →
    ((tokenize s).flatMap (expansion ctx)).head?.any Fragment.isIdentifier = false

theorem boundary?_of_isBreak {f : Fragment} (h : f.isBreak = true) : boundary? f = none := by
  cases f with
  | combinator t => rfl
  | whitespace t => rfl
  | comment t => rfl
  | _ => exact absurd h (by simp [Fragment.isBreak, Fragment.isComment, Fragment.isSeparator])

section
variable {ctx : Context} {gs : List Segment} {s u : Text}

theorem rescoped_nil : Rescoped ctx [] [] [] := by
  refine ⟨?_, fun _ => .refl [], fun _ => ⟨nameEnds_nil, by simp⟩, fun _ => ?_⟩
  · rw [tokenize_nil]
    rfl
  · rw [tokenize_nil]
    rfl

theorem Rescoped.separator {x : Lexeme} (h : Rescoped ctx gs s u) (hx : x.Stands s)
    (hbreak : x.fragment.isBreak = true) (hend : s = [] → u = []) :
    Rescoped ctx (.separator x.fragment :: gs) (x.text ++ s) (x.text ++ u) := by
  obtain ⟨htest, hends, hname⟩ := Fragment.kind_of_isBreak hbreak
  have hread : (tokenize (x.text ++ s)).flatMap (expansion ctx) =
      x.fragment :: (tokenize s).flatMap (expansion ctx) := by
    rw [tokenize_of_stands hx, List.flatMap_cons,
      expansion_of_none ctx (boundary?_of_isBreak hbreak), List.singleton_append]
  obtain ⟨c, r, hcr, hc⟩ := hx.exists_startsBreak hbreak
  refine ⟨?_, fun _ => ?_, fun _ => ?_, fun _ => ?_⟩
  · rw [hread, mergeNames_cons, Fragment.joinName_of_endsInName hends, nameTests_cons_of_neg htest,
      ← h.names, hx.nameTests_tokenize hbreak hend]
  · rw [hcr, List.cons_append, List.cons_append]
    exact looksLike_of_startsBreak hc _ _
  · rw [hcr, List.cons_append]
    exact calm_cons (isCalm_of_startsBreak hc) _
  · rw [hread, List.head?_cons, Option.any_some, hname]

/-- The names of a part stand in front of those of the rest. -/
theorem rescoped_part {part : List Fragment} {t v : Text} (ht : tokenize t = part ++ tokenize s)
    (hnames : nameTests (tokenize v) = nameTests ((part.flatMap (expansion ctx)).foldr
      Fragment.joinName (mergeNames ((tokenize s).flatMap (expansion ctx))))) :
    Rescoped ctx (.part part :: gs) t v := by
  have hfalse : ¬StartsApart (.part part :: gs) := by simp [StartsApart, Segment.isPart]
  refine ⟨?_, fun hp => absurd hp hfalse, fun hp => absurd hp hfalse, fun hp => absurd hp hfalse⟩
  rw [hnames, ht, List.flatMap_append, mergeNames_append]

section
variable (h : Rescoped ctx gs s u) (hgs : StartsApart gs) {part : List Fragment} {t : Text}
  (ht : tokenize t = part ++ tokenize s)
include h hgs ht

/-- A part with a boundary is written out, and names that meet in it become one. -/
theorem Rescoped.boundary (hfirm : ∀ f ∈ part.flatMap (expansion ctx), Firm f) :
    Rescoped ctx (.part part :: gs) t (part.flatMap (expandFragment ctx) ++ u) := by
  have hrest : ReadAs u (mergeNames ((tokenize s).flatMap (expansion ctx))) :=
    .other (h.calm hgs) ((any_isIdentifier_mergeNames _).trans (h.head hgs))
      (by rw [h.names])
  refine rescoped_part ht ?_
  rw [← render_flatMap_expansion]
  exact (hrest.render_append hfirm).nameTests_eq

/-- A plain part is read again, with at most a token put into it. -/
theorem Rescoped.plain {part' : List Fragment}
    (htoken : tokenize ctx.elementToken = [.attr ctx.elementToken])
    (hbalanced : ∀ f ∈ part, f.isUnbalanced = false) (hplain : ∀ f ∈ part, boundary? f = none)
    (hinserted : Inserted ctx.elementToken part part') :
    Rescoped ctx (.part part :: gs) t (render part' ++ u) := by
  obtain ⟨hread, -⟩ := tokenize_append_of_inserted htoken ht (h.looks hgs) hbalanced hinserted
  have hchain : part.IsChain Fragment.Apart := by
    have hall := isChain_tokenize t
    rw [ht] at hall
    exact hall.left_of_append
  have hhead := (any_isIdentifier_mergeNames _).trans (h.head hgs)
  refine rescoped_part ht ?_
  rw [flatMap_expansion ctx hplain, foldr_joinName_of_isChain hchain hhead, hread, nameTests_append,
    nameTests_append, hinserted.nameTests, h.names]

/-- A part in its scoped form, in front of the scoped form of what follows it. -/
theorem Rescoped.scopePart (htokens : SingleTokens ctx) {k n : Nat} (hk : k < n)
    (hescape : escape? part = none) (htight : IsTight part)
    (hbalanced : ∀ f ∈ part, f.isUnbalanced = false) :
    Rescoped ctx (.part part :: gs) t (scopePart ctx (ctx.parts.selects k n) part ++ u) := by
  cases hany : part.any fun f => (boundary? f).isSome with
  | false =>
      have hplain : ∀ f ∈ part, boundary? f = none := by simpa using hany
      obtain ⟨part', hmarked, htext⟩ := exists_markedPart ctx hk ⟨hescape, hplain⟩
      rw [htext]
      exact h.plain hgs ht htokens.element hbalanced hplain hmarked.inserted
  | true =>
      obtain ⟨d, hd, hsome⟩ := List.any_eq_true.1 hany
      have hloose := htight.resolve_left fun hall => by simp [hall d hd] at hsome
      rw [Scope.scopePart, if_pos hany]
      refine h.boundary hgs ht fun g hg => ?_
      obtain ⟨f, hf, hg⟩ := List.mem_flatMap.1 hg
      have hread : f ∈ tokenize t := ht ▸ List.mem_append_left _ hf
      exact firm_expansion htokens hread (hloose f hf) g hg

end

end

/-- Scoping the segments read from a text gives a text with the names of its expansion. -/
theorem rescoped_scopeSegments {ctx : Context} (htokens : SingleTokens ctx) {n k : Nat}
    {gs : List Segment} {s : Text} {before : Option Fragment}
    (hgs : segmentAfter before (tokenize s) = gs)
    (hbalanced : ∀ f ∈ tokenize s, f.isUnbalanced = false)
    (hparts : ∀ part, Segment.part part ∈ gs → escape? part = none ∧ IsTight part)
    (hn : k + gs.countP Segment.isPart ≤ n) :
    Rescoped ctx gs s (scopeSegments ctx n k gs) := by
  -- a part is followed by a separator or by nothing, and so no name of it runs on into the rest
  induction gs generalizing k s before with
  | nil =>
      have hread : tokenize s = [] := by
        rw [← fragments_segmentAfter before (tokenize s), hgs]
        rfl
      have hs : s = [] := by rw [← render_tokenize s, hread, render_nil]
      rw [hs]
      exact rescoped_nil
  | cons g gs ih =>
      have hparts' : ∀ part, Segment.part part ∈ gs → escape? part = none ∧ IsTight part :=
        fun part hpart => hparts part (List.mem_cons_of_mem g hpart)
      cases g with
      | separator f =>
          obtain ⟨rest, hread, hsep, rfl⟩ := segmentAfter_eq_separator hgs
          obtain ⟨x, v, hx, rfl, rfl, rfl⟩ := exists_stands_of_tokenize hread
          rw [List.countP_cons_of_neg (by simp [Segment.isPart])] at hn
          rw [hread] at hbalanced
          have htail := ih rfl (List.forall_mem_cons.1 hbalanced).2 hparts' hn
          rw [scopeSegments, Lexeme.text_fragment]
          refine htail.separator hx (isBreak_of_separates hsep) fun hv => ?_
          rw [hv, tokenize_nil]
          rfl
      | part part =>
          obtain ⟨rest, hread, -, -, rfl, hapart⟩ := segmentAfter_eq_part hgs
          obtain ⟨v, rfl⟩ := exists_tokenize_of_eq_append hread
          obtain ⟨hescape, htight⟩ := hparts part List.mem_cons_self
          rw [List.countP_cons_of_pos rfl] at hn
          rw [hread] at hbalanced
          obtain ⟨hpart, hrest⟩ := List.forall_mem_append.1 hbalanced
          have htail := ih (k := k + 1) rfl hrest hparts' (by omega)
          rw [scopeSegments, hescape]
          exact htail.scopePart hapart hread htokens (by omega) hescape htight hpart

/-- The type, class and id selectors of a scoped selector are those of the expansion, names that
meet being one. They are all there just when no name meets a type selector in the expansion, and
then those of the selector and of the arguments written out are among them, in their order. -/
theorem nameTests_scopeSelector {o : Options} {ctx : Context} (ho : o.Plain)
    (hctx : o.toContext = .ok ctx) {t : Text} {segments : List Segment}
    (hs : segment (tokenize t) = segments) (h : isMalformed segments = false)
    (hparts : ∀ part, Segment.part part ∈ segments → escape? part = none ∧ IsTight part) :
    let expanded := (tokenize t).flatMap (expansion ctx)
    nameTests (tokenize (scopeSelector ctx t)) = nameTests (mergeNames expanded) ∧
      (nameTests (tokenize (scopeSelector ctx t)) = nameTests expanded ↔
        expanded.IsChain Fragment.Apart) ∧
      (expanded.IsChain Fragment.Apart →
        List.Sublist (nameTests ((tokenize t).flatMap writtenOut))
          (tokenize (scopeSelector ctx t))) := by
  intro expanded
  have hscoped : scopeSelector ctx t =
      scopeSegments ctx (segments.countP Segment.isPart) 0 segments := by
    rw [scopeSelector, hs, if_neg (by simp [h]), countP_isCounted fun p hp => (hparts p hp).1]
  have hbalanced : ∀ f ∈ tokenize t, f.isUnbalanced = false := by
    rw [isMalformed, Bool.or_eq_false_iff, ← hs] at h
    exact isUnbalanced_of_isBroken h.2
  have hnames : nameTests (tokenize (scopeSelector ctx t)) = nameTests (mergeNames expanded) := by
    rw [hscoped]
    exact (rescoped_scopeSegments (ho.singleTokens hctx) hs hbalanced hparts (by omega)).names
  refine ⟨hnames, ?_, fun hchain => ?_⟩
  · rw [hnames]
    exact nameTests_mergeNames_eq_iff
  · have hkept : List.Sublist ((tokenize t).flatMap writtenOut) expanded :=
      List.Sublist.flatMap_right _ fun f _ => writtenOut_sublist_expansion ctx f
    have hsub : List.Sublist (nameTests ((tokenize t).flatMap writtenOut)) (nameTests expanded) :=
      hkept.filter _
    rw [← mergeNames_of_isChain hchain, ← hnames] at hsub
    exact hsub.trans List.filter_sublist

/-- A class behind the bare host token, and a type selector behind the child combinator. -/
theorem nameTests_scopeSelector_component :
    let o : Options := .ofComponent "x-card".toList
    let ctx : Context := ⟨"_x-card".toList, "[_x-card]".toList, "x-card".toList, {}⟩
    let t : Text := ":host(.big) > ::slotted(p.a/**/) i".toList
    o.Plain ∧ o.toContext = .ok ctx ∧ isMalformed (segment (tokenize t)) = false ∧
      (∀ g ∈ segment (tokenize t), escape? g.fragments = none ∧ IsTight g.fragments) ∧
      scopeSelector ctx t = "x-card.big > slot[slotted][_x-card] > p.a i[_x-card]".toList ∧
      ((tokenize t).flatMap (expansion ctx)).IsChain Fragment.Apart ∧
      (nameTests ((tokenize t).flatMap writtenOut)).map Fragment.text =
        [".big".toList, "p".toList, ".a".toList, "i".toList] ∧
      List.Sublist (nameTests ((tokenize t).flatMap writtenOut))
        (tokenize (scopeSelector ctx t)) := by
  intro o ctx t
  have ho : o.Plain := ⟨by simp [o, Options.ofComponent], by decide +kernel, rfl, rfl⟩
  have hctx : o.toContext = .ok ctx := rfl
  have h : isMalformed (segment (tokenize t)) = false := by decide +kernel
  have hparts : ∀ g ∈ segment (tokenize t), escape? g.fragments = none ∧ IsTight g.fragments := by
    decide +kernel
  have hchain : ((tokenize t).flatMap (expansion ctx)).IsChain Fragment.Apart := by decide +kernel
  obtain ⟨-, -, hkept⟩ :=
    nameTests_scopeSelector ho hctx rfl h fun part hp => hparts (.part part) hp
  exact ⟨ho, hctx, h, hparts, by decide +kernel, hchain, by decide +kernel, hkept hchain⟩

/-- The type selector in the parentheses of `:host` and the name of the component become one name. -/
theorem nameTests_scopeSelector_host :
    let o : Options := .ofComponent "x-card".toList
    let ctx : Context := ⟨"_x-card".toList, "[_x-card]".toList, "x-card".toList, {}⟩
    let t : Text := ":host(div)".toList
    o.Plain ∧ o.toContext = .ok ctx ∧ isMalformed (segment (tokenize t)) = false ∧
      (∀ g ∈ segment (tokenize t), escape? g.fragments = none ∧ IsTight g.fragments) ∧
      nameTests ((tokenize t).flatMap writtenOut) = [.identifier "div".toList] ∧
      tokenize (scopeSelector ctx t) = [.identifier "divx-card".toList] := by
  intro o ctx t
  have ho : o.Plain := ⟨by simp [o, Options.ofComponent], by decide +kernel, rfl, rfl⟩
  refine ⟨ho, rfl, by decide +kernel, by decide +kernel, ?_, ?_⟩
  · have hcall : Lexeme.Stands (.call 1 "host".toList "div".toList true) [] :=
      .call (by decide) (by decide)
    have hread : tokenize t = [.function 1 "host".toList [.identifier "div".toList] true] := by
      rw [← tokenize_name (by decide), ← tokenize_nil]
      exact tokenize_of_stands hcall
    rw [hread]
    rfl
  · have htext : scopeSelector ctx t = "divx-card".toList := by decide +kernel
    rw [htext]
    exact tokenize_name (by decide)

end StyleScope.Scope
