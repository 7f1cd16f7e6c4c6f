import StyleScope.Proofs.Selector.RoundTrip
import StyleScope.Scope.Selector

/-! # Where the element token is placed

The scoped form of a selector is made up of one piece for each segment. What becomes of a segment
depends on nothing but the segment, the number of counted parts before it and the number of all
counted parts; a part with an escape is not counted, so it shifts no other part
(`getElem?_scopedPieces`). `ScopedPiece` says what the piece of a segment is: separators and unmarked
parts are written as they were read, and a marked part has the element token once, behind its first
type selector or else behind its first id, class or attribute test.
-/
namespace StyleScope.Scope
open Text Selector

/-- The part at place `k` of `n` is to be marked. -/
def Marked (p : Parts) (k n : Nat) : Prop :=
  (k = 0 ∧ p.first = true) ∨ (k + 1 = n ∧ p.last = true) ∨
    (0 < k ∧ k + 1 < n ∧ p.interior = true)

theorem selects_iff_marked (p : Parts) {k n : Nat} (h : k < n) :
    p.selects k n = true ↔ Marked p k n := by
  have hlast : k = n - 1 ↔ k + 1 = n := by omega
  have hinner : k ≠ 0 ∧ k ≠ n - 1 ↔ 0 < k ∧ k + 1 < n := by omega
  simp only [Parts.selects, Marked, Bool.or_eq_true, Bool.and_eq_true, decide_eq_true_eq]
  rw [hinner, hlast, and_assoc, or_assoc]

/-- A part that neither escapes nor crosses the boundary of the component. -/
def IsPlain (part : List Fragment) : Prop :=
  escape? part = none ∧ ∀ f ∈ part, boundary? f = none

/-- What is written for a segment that has `k` of `n` counted parts before it. -/
inductive ScopedPiece (ctx : Context) (k n : Nat) : Segment → Text → Prop
  | separator (f : Fragment) : ScopedPiece ctx k n (.separator f) f.text
  | escape {part : List Fragment} {e : Escape} : escape? part = some e →
      ScopedPiece ctx k n (.part part) (escapeText ctx e part)
  | boundary {part : List Fragment} : escape? part = none → (∃ f ∈ part, boundary? f ≠ none) →
      ScopedPiece ctx k n (.part part) (part.flatMap (expandFragment ctx))
  /-- Behind the first type selector. -/
  | afterType {left right : List Fragment} {f : Fragment} : IsPlain (left ++ f :: right) →
      Marked ctx.parts k n → f.isType = true → (∀ g ∈ left, g.isType = false) →
      ScopedPiece ctx k n (.part (left ++ f :: right))
        (render left ++ f.text ++ ctx.elementToken ++ render right)
  /-- Behind the first id, class or attribute test of a part without type selectors. -/
  | afterTest {left right : List Fragment} {f : Fragment} : IsPlain (left ++ f :: right) →
      Marked ctx.parts k n → (∀ g ∈ left ++ f :: right, g.isType = false) →
      f.isScopable = true → (∀ g ∈ left, g.isScopable = false) →
      ScopedPiece ctx k n (.part (left ++ f :: right))
        (render left ++ f.text ++ ctx.elementToken ++ render right)
  | verbatim {part : List Fragment} : IsPlain part →
      (¬Marked ctx.parts k n ∨ ∀ f ∈ part, f.isScopable = false) →
      ScopedPiece ctx k n (.part part) (render part)

theorem markAfter_append_cons {anchor : Fragment → Bool} {left right : List Fragment} {f : Fragment}
    (token : Text) (hf : anchor f = true) (hleft : ∀ g ∈ left, anchor g = false) :
    markAfter anchor token (left ++ f :: right) =
      render left ++ f.text ++ token ++ render right := by
  induction left with
  | nil => simp [markAfter, hf]
  | cons g gs ih =>
      have hg : anchor g = false := hleft g (by simp)
      have hgs := ih fun d hd => hleft d (by simp [hd])
      simp [markAfter, hg, hgs]

theorem markAfter_eq_render {anchor : Fragment → Bool} {part : List Fragment} (token : Text)
    (h : ∀ g ∈ part, anchor g = false) : markAfter anchor token part = render part := by
  induction part with
  | nil => rfl
  | cons g gs ih =>
      have hg : anchor g = false := h g (by simp)
      have hgs := ih fun d hd => h d (by simp [hd])
      simp [markAfter, hg, hgs]

/-- A part with an anchor is cut at its first one. -/
theorem exists_first_anchor {anchor : Fragment → Bool} {part : List Fragment}
    (h : part.any anchor = true) :
    ∃ left f right, part = left ++ f :: right ∧ anchor f = true ∧ ∀ g ∈ left, anchor g = false := by
  obtain ⟨f, hf⟩ := Option.isSome_iff_exists.1 (List.find?_isSome.2 (List.any_eq_true.1 h))
  obtain ⟨hanchor, left, right, he, hleft⟩ := List.find?_eq_some_iff_append.1 hf
  exact ⟨left, f, right, he, hanchor, fun g hg => by simpa using hleft g hg⟩

theorem scopedPiece_scopePart {ctx : Context} {k n : Nat} {part : List Fragment} (hk : k < n)
    (hescape : escape? part = none) :
    ScopedPiece ctx k n (.part part) (scopePart ctx (ctx.parts.selects k n) part) := by
  unfold scopePart
  split
  · next hb =>
    obtain ⟨f, hf, hsome⟩ := List.any_eq_true.1 hb
    exact .boundary hescape ⟨f, hf, Option.isSome_iff_ne_none.1 hsome⟩
  · next hb =>
    have hplain : IsPlain part := by
      refine ⟨hescape, fun f hf => ?_⟩
      have hf' := List.any_eq_false.1 (Bool.eq_false_iff.2 hb) f hf
      simpa using hf'
    split
    · next hsel =>
      have hmarked := (selects_iff_marked ctx.parts hk).1 hsel
      cases htype : part.any Fragment.isType with
      | true =>
          obtain ⟨left, f, right, rfl, hf, hleft⟩ := exists_first_anchor htype
          rw [show isAnchor true = Fragment.isType from rfl,
            markAfter_append_cons ctx.elementToken hf hleft]
          exact .afterType hplain hmarked hf hleft
      | false =>
          have hnone : ∀ f ∈ part, f.isType = false := by simpa using htype
          rw [show isAnchor false = Fragment.isScopable from rfl]
          cases htest : part.any Fragment.isScopable with
          | true =>
              obtain ⟨left, f, right, rfl, hf, hleft⟩ := exists_first_anchor htest
              rw [markAfter_append_cons ctx.elementToken hf hleft]
              exact .afterTest hplain hmarked hnone hf hleft
          | false =>
              have hno : ∀ f ∈ part, f.isScopable = false := by simpa using htest
              rw [markAfter_eq_render ctx.elementToken hno]
              exact .verbatim hplain (.inr hno)
    · next hsel => exact .verbatim hplain (.inl fun h => hsel ((selects_iff_marked ctx.parts hk).2 h))

/-- The scoped form of a segment that has `k` of `n` counted parts before it. -/
def scopeSegment (ctx : Context) (n k : Nat) : Segment → Text
  | .separator f => f.text
  | .part part =>
    match escape? part with
    | some e => escapeText ctx e part
    | none => scopePart ctx (ctx.parts.selects k n) part

theorem scopedPiece_scopeSegment {ctx : Context} {k n : Nat} {g : Segment}
    (hk : isCounted g = true → k < n) : ScopedPiece ctx k n g (scopeSegment ctx n k g) := by
  cases g with
  | separator f => exact .separator f
  | part part =>
      rw [scopeSegment]
      split
      · next e he => exact .escape he
      · next he => exact scopedPiece_scopePart (hk (by simp [isCounted, he])) he

/-- The scoped forms of segments, the counted parts being numbered from `k` on. -/
def scopedPieces (ctx : Context) (n k : Nat) : List Segment → List Text
  | [] => []
  | g :: gs => scopeSegment ctx n k g :: scopedPieces ctx n (k + [g].countP isCounted) gs

theorem scopeSegments_eq_flatten (ctx : Context) (n k : Nat) (gs : List Segment) :
    scopeSegments ctx n k gs = (scopedPieces ctx n k gs).flatten := by
  induction gs generalizing k with
  | nil => rfl
  | cons g gs ih =>
      cases g with
      | separator f => simp [scopeSegments, scopedPieces, scopeSegment, isCounted, ih]
      | part part =>
          rw [scopeSegments, scopedPieces, scopeSegment]
          cases he : escape? part with
          | none => simp [isCounted, he, ih]
          | some e => simp [isCounted, he, ih]

theorem length_scopedPieces (ctx : Context) (n k : Nat) (gs : List Segment) :
    (scopedPieces ctx n k gs).length = gs.length := by
  induction gs generalizing k with
  | nil => rfl
  | cons g gs ih => rw [scopedPieces, List.length_cons, List.length_cons, ih]

theorem getElem?_scopedPieces (ctx : Context) (n k i : Nat) (gs : List Segment) :
    (scopedPieces ctx n k gs)[i]? =
      gs[i]?.map (scopeSegment ctx n (k + (gs.take i).countP isCounted)) := by
  induction gs generalizing k i with
  | nil => rfl
  | cons g gs ih =>
      cases i with
      | zero => simp [scopedPieces]
      | succ i =>
          -- the first segment moves from those before place `i` into the number counted so far
          have hcount : (g :: gs.take i).countP isCounted =
              [g].countP isCounted + (gs.take i).countP isCounted := by
            rw [← List.countP_append, List.singleton_append]
          rw [scopedPieces, List.getElem?_cons_succ, List.getElem?_cons_succ, List.take_succ_cons, ih,
            hcount, Nat.add_assoc]

theorem countP_take_lt {gs : List Segment} {g : Segment} {i : Nat} (h : gs[i]? = some g)
    (hg : isCounted g = true) : (gs.take i).countP isCounted < gs.countP isCounted := by
  have htake : gs.take (i + 1) = gs.take i ++ [g] := by
    rw [List.take_add_one, h, Option.toList_some]
  have hone : (gs.take (i + 1)).countP isCounted = (gs.take i).countP isCounted + 1 := by
    rw [htake, List.countP_append, List.countP_singleton, if_pos hg]
  have hle : (gs.take (i + 1)).countP isCounted ≤ gs.countP isCounted :=
    (List.take_sublist (i + 1) gs).countP_le
  omega

/-- The segments of a selector that is not malformed make up the selector, and its scoped form has
one piece for each of them: what the segment, by its place among the counted parts, is to become. -/
theorem scopeSelector_placement (ctx : Context) {t : Text} {segments : List Segment}
    (hs : segment (tokenize t) = segments) (h : isMalformed segments = false) :
    (segments.flatMap fun g => render g.fragments) = t ∧
      ∃ pieces : List Text,
        scopeSelector ctx t = pieces.flatten ∧ pieces.length = segments.length ∧
        ∀ i g piece, segments[i]? = some g → pieces[i]? = some piece →
          ScopedPiece ctx ((segments.take i).countP isCounted) (segments.countP isCounted) g
            piece := by
  refine ⟨hs ▸ render_segment_tokenize t,
    scopedPieces ctx (segments.countP isCounted) 0 segments, ?_, ?_, ?_⟩
  · rw [scopeSelector, hs, ← scopeSegments_eq_flatten, if_neg (by simp [h])]
  · exact length_scopedPieces ctx _ 0 segments
  · intro i g piece hg hpiece
    rw [getElem?_scopedPieces, hg, Option.map_some, Option.some.injEq, Nat.zero_add] at hpiece
    rw [← hpiece]
    exact scopedPiece_scopeSegment (countP_take_lt hg)

/-- Escapes at both ends leave the class first and the type selector, behind a class, last. -/
theorem scopeSelector_placement_escapes :
    let ctx : Context := ⟨"s".toList, "[s]".toList, "[s-host]".toList, {}⟩
    let t : Text := ":global(p) .a > .b/**/i :local(q)".toList
    isMalformed (segment (tokenize t)) = false ∧
      scopeSelector ctx t = "p .a[s] > .b/**/i[s] [s-host] q".toList ∧
      ∃ pieces : List Text,
        scopeSelector ctx t = pieces.flatten ∧ pieces.length = (segment (tokenize t)).length ∧
        ∀ i g piece, (segment (tokenize t))[i]? = some g → pieces[i]? = some piece →
          ScopedPiece ctx (((segment (tokenize t)).take i).countP isCounted)
            ((segment (tokenize t)).countP isCounted) g piece := by
  intro ctx t
  have h : isMalformed (segment (tokenize t)) = false := by decide +kernel
  exact ⟨h, by decide +kernel, (scopeSelector_placement ctx rfl h).2⟩

end StyleScope.Scope
