import StyleScope.Proofs.Selector.Alternation

/-! # Malformed selectors

Whether a selector is malformed is decided segment by segment, with a combinator that waits for its
part. It can be told from the flat fragments as well (`isMalformed_segment_iff`): nothing in them
can stand in a part, or something is unbalanced, or, whitespace and comments left aside, two
combinators stand in a row or one stands at the end.

A comment inside a part is no end to a waiting combinator, though the part is. The two agree because
no combinator waits where a comment lies in a part: the fragment before it is in the part too
(`isBroken_segmentAfter`).
-/
namespace StyleScope.Selector
open Text

namespace Fragment

def isCombinator : Fragment → Bool
  | combinator _ => true
  | _ => false

/-- A stray bracket, or arguments that are never closed. -/
inductive Unbalanced : Fragment → Prop
  | bracket {c : Char} : c ∈ ['[', ']', '(', ')'] → Unbalanced (.raw [c])
  | unclosed (colons : Nat) (name : Text) (arguments : List Fragment) :
      Unbalanced (.function colons name arguments false)

theorem isUnbalanced_iff {f : Fragment} : f.isUnbalanced = true ↔ f.Unbalanced := by
  constructor
  · intro h
    cases f with
    | raw t =>
        simp only [isUnbalanced, Bool.or_eq_true, decide_eq_true_eq] at h
        obtain ((rfl | rfl) | rfl) | rfl := h <;> exact .bracket (by decide)
    | function colons name arguments closed =>
        obtain rfl : closed = false := by simpa [isUnbalanced] using h
        exact .unclosed colons name arguments
    | _ => exact absurd h (by simp [isUnbalanced])
  · intro h
    cases h with
    | @bracket c hc =>
        simp only [List.mem_cons, List.not_mem_nil, or_false] at hc
        obtain rfl | rfl | rfl | rfl := hc <;> rfl
    | unclosed colons name arguments => rfl

end Fragment

def withoutPadding (fs : List Fragment) : List Fragment := fs.filter fun f => !f.isPadding

def CombinatorsMeet (fs : List Fragment) : Prop :=
  ∃ f g, [f, g] <:+: fs ∧ f.isCombinator = true ∧ g.isCombinator = true

def EndsInCombinator (fs : List Fragment) : Prop := ∃ f ∈ fs.getLast?, f.isCombinator = true

/-- A combinator follows another or ends the fragments; `pending` when one stands right before
them. -/
def dangles (pending : Bool) : List Fragment → Bool
  | [] => pending
  | f :: fs => if f.isCombinator then pending || dangles true fs else dangles false fs

theorem combinatorsMeet_cons_iff {f : Fragment} {fs : List Fragment} :
    CombinatorsMeet (f :: fs) ↔
      (f.isCombinator = true ∧ ∃ g ∈ fs.head?, g.isCombinator = true) ∨ CombinatorsMeet fs := by
  constructor
  · rintro ⟨d, g, hinfix, hd, hg⟩
    obtain hprefix | hinfix := List.infix_cons_iff.1 hinfix
    · obtain ⟨rfl, rest, rfl⟩ := List.cons_prefix_cons.1 hprefix
      exact .inl ⟨hd, g, rfl, hg⟩
    · exact .inr ⟨d, g, hinfix, hd, hg⟩
  · rintro (⟨hf, g, hg, hcomb⟩ | ⟨d, g, hinfix, hd, hg⟩)
    · obtain ⟨rest, rfl⟩ := List.head?_eq_some_iff.1 (Option.mem_def.1 hg)
      exact ⟨f, g, ⟨[], rest, rfl⟩, hf, hcomb⟩
    · exact ⟨d, g, hinfix.trans (List.suffix_cons f fs).isInfix, hd, hg⟩

theorem not_combinatorsMeet_nil : ¬CombinatorsMeet [] := by
  rintro ⟨f, g, hinfix, -, -⟩
  exact absurd (List.infix_nil.1 hinfix) (by simp)

theorem dangles_iff (pending : Bool) (fs : List Fragment) :
    dangles pending fs = true ↔
      (pending = true ∧ ∀ f ∈ fs.head?, f.isCombinator = true) ∨ CombinatorsMeet fs ∨
        EndsInCombinator fs := by
  induction fs generalizing pending with
  | nil => simp [dangles, not_combinatorsMeet_nil, EndsInCombinator]
  | cons f fs ih =>
      cases fs with
      | nil =>
          rw [combinatorsMeet_cons_iff]
          cases hf : f.isCombinator with
          | true => simp [dangles, hf, EndsInCombinator]
          | false => simp [dangles, hf, not_combinatorsMeet_nil, EndsInCombinator]
      | cons g fs =>
          have hends : EndsInCombinator (f :: g :: fs) ↔ EndsInCombinator (g :: fs) := by
            rw [EndsInCombinator, EndsInCombinator, List.getLast?_cons_cons]
          rw [hends, combinatorsMeet_cons_iff, dangles]
          cases hf : f.isCombinator with
          | true => simp [hf, ih, or_assoc]
          | false => simp [hf, ih]

theorem isBroken_attach_true (pending : Bool) (f : Fragment) (gs : List Segment) :
    isBroken pending (Segment.attach f true gs) =
      if f.isCombinator then pending || isBroken true gs else isBroken pending gs := by
  cases f with
  | _ => rfl

/-- A fragment put into the part behind it, or into one of its own. -/
theorem isBroken_attach_false (pending : Bool) (f : Fragment) (gs : List Segment) :
    isBroken pending (Segment.attach f false gs) = (f.isUnbalanced || isBroken false gs) := by
  by_cases hgs : StartsApart gs
  · rw [attach_startsApart f hgs, isBroken, List.any_cons, List.any_nil, Bool.or_false]
  · obtain ⟨ps, tail, rfl⟩ := exists_part_of_not_startsApart hgs
    simp [Segment.attach, isBroken, Bool.or_assoc]

theorem joins_of_isBreak {f : Fragment} (h : f.isBreak = true) :
    Fragment.joins (some f) = false := by
  rw [Fragment.isBreak, Bool.or_eq_true] at h
  obtain h | h := h <;> simp [Fragment.joins, h]

/-- What is broken about the segments is told by the fragments. -/
theorem isBroken_segmentAfter {before : Option Fragment} {pending : Bool}
    (h : Fragment.joins before = true → pending = false) (fs : List Fragment) :
    isBroken pending (segmentAfter before fs) =
      (fs.any Fragment.isUnbalanced || dangles pending (withoutPadding fs)) := by
  induction fs generalizing before pending with
  | nil => rfl
  | cons f fs ih =>
      -- nothing waits behind a fragment of a part, and all else leaves no part open
      have hpart : isBroken false (segmentAfter (some f) fs) = _ := ih fun _ => rfl
      have hbreak (waits : Bool) (hf : f.isBreak = true) :
          isBroken waits (segmentAfter (some f) fs) = _ :=
        ih fun hjoins => absurd hjoins (by simp [joins_of_isBreak hf])
      rw [segmentAfter, List.any_cons]
      cases hsep : f.separates before fs.head? with
      | true =>
          have hf := isBreak_of_separates hsep
          rw [isBroken_attach_true, hbreak true hf, hbreak pending hf]
          cases f with
          | combinator t => exact Bool.or_left_comm ..
          | whitespace t => rfl
          | comment t => rfl
          | _ => exact absurd hf (by simp [Fragment.isBreak, Fragment.isSeparator,
              Fragment.isComment])
      | false =>
          rw [isBroken_attach_false, hpart, Bool.or_assoc]
          cases f with
          | combinator t => exact Bool.noConfusion (isSeparator_of_not_separates hsep)
          | whitespace t => exact Bool.noConfusion (isSeparator_of_not_separates hsep)
          | comment t =>
              have hjoins : Fragment.joins before = true ∧ Fragment.joins fs.head? = true := by
                simpa [Fragment.separates, Fragment.isComment] using hsep
              rw [h hjoins.1]
              rfl
          | _ => rfl

/-- The segments have a part just when some fragment can only lie in one. -/
theorem any_isPart_segment_iff (fs : List Fragment) :
    (segment fs).any Segment.isPart = true ↔ ∃ f ∈ fs, f.isBreak = false := by
  have halternation := alternation_segment fs
  rw [List.any_eq_true]
  constructor
  · rintro ⟨g, hg, hpart⟩
    cases g with
    | separator f => exact absurd hpart (by simp [Segment.isPart])
    | part p =>
        obtain ⟨f, r, rfl⟩ := List.exists_cons_of_ne_nil (halternation.part_ne_nil p hg)
        have hseparator := halternation.part _ hg f List.mem_cons_self
        have hcomment := (halternation.isComment_ends hg).1 f rfl
        refine ⟨f, ?_, by rw [Fragment.isBreak, hseparator, hcomment, Bool.or_false]⟩
        rw [← halternation.fragments]
        exact List.mem_flatMap_of_mem hg List.mem_cons_self
  · rintro ⟨f, hf, hbreak⟩
    obtain ⟨before, after, rfl⟩ := List.append_of_mem hf
    have hsep : f.separates before.getLast? after.head? = false := by
      refine Bool.eq_false_iff.2 fun hsep => ?_
      rw [isBreak_of_separates hsep] at hbreak
      exact absurd hbreak (by simp)
    have hplaced := halternation.getElem?_placed rfl
    rw [hsep] at hplaced
    obtain ⟨p, hp, -⟩ := mem_placed_true_iff.1 (List.mem_of_getElem? hplaced)
    exact ⟨.part p, hp, rfl⟩

/-- A selector is malformed just when all its fragments are combinators, whitespace and comments, or
one is unbalanced, or without whitespace and comments two combinators stand in a row or one stands
at the end. -/
theorem isMalformed_segment_iff (fs : List Fragment) :
    isMalformed (segment fs) = true ↔
      (∀ f ∈ fs, f.isBreak = true) ∨ (∃ f ∈ fs, f.Unbalanced) ∨
        CombinatorsMeet (withoutPadding fs) ∨ EndsInCombinator (withoutPadding fs) := by
  have hbroken : isBroken false (segment fs) = _ := isBroken_segmentAfter (fun _ => rfl) fs
  have hparts : (segment fs).any Segment.isPart = false ↔ ∀ f ∈ fs, f.isBreak = true := by
    rw [← Bool.not_eq_true, any_isPart_segment_iff]
    simp
  have hunbalanced : fs.any Fragment.isUnbalanced = true ↔ ∃ f ∈ fs, f.Unbalanced := by
    simp only [List.any_eq_true, Fragment.isUnbalanced_iff]
  rw [isMalformed, Bool.or_eq_true, Bool.not_eq_true', hparts, hbroken, Bool.or_eq_true,
    hunbalanced, dangles_iff]
  simp

end StyleScope.Selector
