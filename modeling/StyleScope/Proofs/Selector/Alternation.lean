import Mathlib.Data.List.Chain
import StyleScope.Proofs.Selector.Grouping
import StyleScope.Proofs.Selector.NameTests

/-! # Parts and separators in turn

The segments of fragments are known from the fragments alone: they are the one way to cut them into
parts, of which no two meet, and separators, such that combinators and whitespace lie outside of
parts, everything else but comments inside, and a comment inside just when it has a neighbour on
either side that can only lie inside itself (`Alternation`, `alternation_iff`).

For each fragment it is enough to know whether it lies in a part (`placed`): parts that are not
empty and do not meet are put together again from that (`regroup_placed`).
-/
namespace StyleScope.Selector
open Text

theorem isBreak_of_separates {before after : Option Fragment} {f : Fragment}
    (h : f.separates before after = true) : f.isBreak = true := by
  rw [Fragment.separates] at h
  split at h
  · next hcomment => rw [Fragment.isBreak, hcomment, Bool.or_true]
  · rw [Fragment.isBreak, h, Bool.true_or]

theorem isSeparator_of_not_separates {before after : Option Fragment} {f : Fragment}
    (h : f.separates before after = false) : f.isSeparator = false := by
  cases f with
  | combinator t => exact absurd h (by simp [Fragment.separates, Fragment.isComment,
      Fragment.isSeparator])
  | whitespace t => exact absurd h (by simp [Fragment.separates, Fragment.isComment,
      Fragment.isSeparator])
  | _ => rfl

theorem separates_comment_iff {before after : Option Fragment} {f : Fragment}
    (h : f.isComment = true) :
    f.separates before after = false ↔
      (∃ g ∈ before, g.isBreak = false) ∧ ∃ g ∈ after, g.isBreak = false := by
  have hjoins (o : Option Fragment) : Fragment.joins o = true ↔ ∃ g ∈ o, g.isBreak = false := by
    cases o with
    | none => simp [Fragment.joins]
    | some g => simp [Fragment.joins, Fragment.isBreak, and_comm]
  rw [Fragment.separates, if_pos h, Bool.not_eq_false', Bool.and_eq_true, hjoins, hjoins]

/-- The fragments of segments in their order, each with whether it lies in a part. -/
def placed (gs : List Segment) : List (Fragment × Bool) :=
  gs.flatMap fun g => g.fragments.map fun f => (f, g.isPart)

/-- The segments of fragments of which it is known whether they lie in a part. -/
def regroup (xs : List (Fragment × Bool)) : List Segment :=
  xs.foldr (fun x gs => Segment.attach x.1 (!x.2) gs) []

def Segment.Apart (g h : Segment) : Prop := (g.isPart && h.isPart) = false

/-- Fragments cut into parts and separators that stand in turn. -/
structure Alternation (fs : List Fragment) (gs : List Segment) : Prop where
  fragments : gs.flatMap Segment.fragments = fs
  part_ne_nil : ∀ p, .part p ∈ gs → p ≠ []
  /-- No two parts meet. -/
  apart : gs.IsChain Segment.Apart
  separator : ∀ f, .separator f ∈ gs → f.isBreak = true
  part : ∀ p, .part p ∈ gs → ∀ f ∈ p, f.isSeparator = false
  /-- A comment lies in a part just when it has two neighbours that are no comments, combinators or
  whitespace. -/
  comment : ∀ before f after, fs = before ++ f :: after → f.isComment = true →
    ((placed gs)[before.length]? = some (f, true) ↔
      (∃ g ∈ before.getLast?, g.isBreak = false) ∧ ∃ g ∈ after.head?, g.isBreak = false)

section
variable {gs : List Segment}

@[simp] theorem placed_cons (g : Segment) (gs : List Segment) :
    placed (g :: gs) = (g.fragments.map fun f => (f, g.isPart)) ++ placed gs := rfl

@[simp] theorem placed_append (gs hs : List Segment) :
    placed (gs ++ hs) = placed gs ++ placed hs :=
  List.flatMap_append

theorem map_fst_placed (gs : List Segment) :
    (placed gs).map Prod.fst = gs.flatMap Segment.fragments := by
  induction gs with
  | nil => rfl
  | cons g gs ih =>
      rw [placed_cons, List.map_append, ih, List.map_map, List.flatMap_cons]
      exact congrArg (· ++ _) (List.map_id _)

theorem length_placed (gs : List Segment) :
    (placed gs).length = (gs.flatMap Segment.fragments).length := by
  rw [← map_fst_placed, List.length_map]

theorem mem_placed_true_iff {f : Fragment} :
    (f, true) ∈ placed gs ↔ ∃ p, .part p ∈ gs ∧ f ∈ p := by
  rw [placed, List.mem_flatMap]
  constructor
  · rintro ⟨g, hg, hf⟩
    cases g with
    | part p => exact ⟨p, hg, by simpa [Segment.fragments, Segment.isPart] using hf⟩
    | separator d => exact absurd hf (by simp [Segment.fragments, Segment.isPart])
  · rintro ⟨p, hp, hf⟩
    exact ⟨.part p, hp, List.mem_map_of_mem hf⟩

theorem mem_placed_false_iff {f : Fragment} : (f, false) ∈ placed gs ↔ .separator f ∈ gs := by
  rw [placed, List.mem_flatMap]
  constructor
  · rintro ⟨g, hg, hf⟩
    cases g with
    | part p => exact absurd hf (by simp [Segment.fragments, Segment.isPart])
    | separator d =>
        obtain rfl : f = d := by simpa [Segment.fragments, Segment.isPart] using hf
        exact hg
  · intro hf
    exact ⟨.separator f, hf, List.mem_singleton_self _⟩

theorem placed_attach (f : Fragment) (separates : Bool) (gs : List Segment) :
    placed (Segment.attach f separates gs) = (f, !separates) :: placed gs := by
  cases separates with
  | true => rfl
  | false =>
      cases gs with
      | nil => rfl
      | cons g gs =>
          cases g with
          | part fs => rfl
          | separator s => rfl

theorem getElem?_placed_part (left right : List Segment) (q r : List Fragment) (f : Fragment) :
    (placed (left ++ .part (q ++ f :: r) :: right))[(left.flatMap Segment.fragments ++ q).length]? =
      some (f, true) := by
  rw [placed_append, List.length_append, ← length_placed,
    List.getElem?_append_right (Nat.le_add_right _ _), Nat.add_sub_cancel_left]
  simp [Segment.fragments, Segment.isPart]

theorem part_ne_nil_attach (f : Fragment) (separates : Bool) (h : ∀ p, .part p ∈ gs → p ≠ []) :
    ∀ p, .part p ∈ Segment.attach f separates gs → p ≠ [] := by
  intro p hp
  cases separates with
  | true => exact h p (by simpa [Segment.attach] using hp)
  | false =>
      by_cases hgs : StartsApart gs
      · rw [attach_startsApart f hgs, List.mem_cons, Segment.part.injEq] at hp
        obtain rfl | hp := hp
        · exact List.cons_ne_nil f []
        · exact h p hp
      · obtain ⟨ps, tail, rfl⟩ := exists_part_of_not_startsApart hgs
        obtain hp | hp := List.mem_cons.1 hp
        · rw [Segment.part.inj hp]
          exact List.cons_ne_nil f ps
        · exact h p (List.mem_cons_of_mem _ hp)

theorem isChain_attach (f : Fragment) (separates : Bool) (h : gs.IsChain Segment.Apart) :
    (Segment.attach f separates gs).IsChain Segment.Apart := by
  cases separates with
  | true => exact List.isChain_cons.2 ⟨fun g _ => rfl, h⟩
  | false =>
      by_cases hgs : StartsApart gs
      · rw [attach_startsApart f hgs]
        refine List.isChain_cons.2 ⟨fun g hg => ?_, h⟩
        rw [StartsApart, Option.mem_def.1 hg] at hgs
        exact hgs
      · obtain ⟨ps, tail, rfl⟩ := exists_part_of_not_startsApart hgs
        obtain ⟨hhead, htail⟩ := List.isChain_cons.1 h
        exact List.isChain_cons.2 ⟨hhead, htail⟩

end

theorem regroup_part {p : List Fragment} {gs : List Segment} (hp : p ≠ []) (h : StartsApart gs) :
    (p.map fun f => (f, true)).foldr (fun x gs => Segment.attach x.1 (!x.2) gs) gs =
      .part p :: gs := by
  induction p with
  | nil => exact absurd rfl hp
  | cons f p ih =>
      cases p with
      | nil => exact attach_startsApart f h
      | cons g p =>
          rw [List.map_cons, List.foldr_cons, ih (List.cons_ne_nil g p)]
          rfl

/-- Parts that are not empty and do not meet are known by what lies in them. -/
theorem regroup_placed {gs : List Segment} (hne : ∀ p, .part p ∈ gs → p ≠ [])
    (hapart : gs.IsChain Segment.Apart) : regroup (placed gs) = gs := by
  induction gs with
  | nil => rfl
  | cons g gs ih =>
      obtain ⟨hhead, htail⟩ := List.isChain_cons.1 hapart
      have hgs := ih (fun p hp => hne p (List.mem_cons_of_mem g hp)) htail
      rw [regroup] at hgs
      rw [placed_cons, regroup, List.foldr_append, hgs]
      cases g with
      | separator f => rfl
      | part p =>
          refine regroup_part (hne p List.mem_cons_self) ?_
          cases gs with
          | nil => rfl
          | cons h hs => exact hhead h rfl

section
variable {before after : List Fragment} {f : Fragment}

theorem getElem?_placed_segmentAfter (b : Option Fragment) :
    (placed (segmentAfter b (before ++ f :: after)))[before.length]? =
      some (f, !f.separates (before.getLast?.or b) after.head?) := by
  induction before generalizing b with
  | nil =>
      rw [List.nil_append, segmentAfter, placed_attach]
      rfl
  | cons d before ih =>
      rw [List.cons_append, segmentAfter, placed_attach, List.length_cons, List.getElem?_cons_succ,
        ih, List.getLast?_cons]
      cases before.getLast? with
      | none => rfl
      | some e => rfl

theorem getElem?_placed_segment :
    (placed (segment (before ++ f :: after)))[before.length]? =
      some (f, !f.separates before.getLast? after.head?) := by
  rw [segment, getElem?_placed_segmentAfter, Option.or_none]

end

theorem exists_separates_of_mem_placed {b : Option Fragment} {fs : List Fragment} {f : Fragment}
    {inside : Bool} (h : (f, inside) ∈ placed (segmentAfter b fs)) :
    ∃ before after, f.separates before after = !inside := by
  induction fs generalizing b with
  | nil => exact absurd h (by simp [segmentAfter, placed])
  | cons d fs ih =>
      rw [segmentAfter, placed_attach, List.mem_cons, Prod.mk.injEq] at h
      obtain ⟨rfl, rfl⟩ | h := h
      · exact ⟨b, fs.head?, (Bool.not_not _).symm⟩
      · exact ih h

theorem part_ne_nil_segmentAfter (b : Option Fragment) (fs : List Fragment) :
    ∀ p, .part p ∈ segmentAfter b fs → p ≠ [] := by
  induction fs generalizing b with
  | nil => exact fun p hp => absurd hp (by simp [segmentAfter])
  | cons f fs ih => exact part_ne_nil_attach f _ (ih (some f))

theorem isChain_segmentAfter (b : Option Fragment) (fs : List Fragment) :
    (segmentAfter b fs).IsChain Segment.Apart := by
  induction fs generalizing b with
  | nil => exact .nil
  | cons f fs ih => exact isChain_attach f _ (ih (some f))

theorem alternation_segment (fs : List Fragment) : Alternation fs (segment fs) where
  fragments := fragments_segment fs
  part_ne_nil := part_ne_nil_segmentAfter none fs
  apart := isChain_segmentAfter none fs
  separator f hf := by
    obtain ⟨before, after, hsep⟩ := exists_separates_of_mem_placed (mem_placed_false_iff.2 hf)
    exact isBreak_of_separates hsep
  part p hp f hf := by
    obtain ⟨before, after, hsep⟩ :=
      exists_separates_of_mem_placed (mem_placed_true_iff.2 ⟨p, hp, hf⟩)
    exact isSeparator_of_not_separates hsep
  comment before f after hfs hf := by
    rw [hfs, getElem?_placed_segment, ← separates_comment_iff hf]
    simp

namespace Alternation
variable {fs : List Fragment} {gs : List Segment} (h : Alternation fs gs)
include h

/-- Whether a fragment lies in a part is known from the fragment and its neighbours. -/
theorem getElem?_placed {before after : List Fragment} {f : Fragment}
    (hfs : fs = before ++ f :: after) :
    (placed gs)[before.length]? = some (f, !f.separates before.getLast? after.head?) := by
  have hfst : ((placed gs)[before.length]?).map Prod.fst = some f := by
    rw [← List.getElem?_map, map_fst_placed, h.fragments, hfs, List.getElem?_append_right le_rfl,
      Nat.sub_self]
    rfl
  obtain ⟨⟨f', inside⟩, hplaced, hf'⟩ := Option.map_eq_some_iff.1 hfst
  obtain rfl : f' = f := hf'
  have hmem := List.mem_of_getElem? hplaced
  have hinside : inside = true ↔ f'.separates before.getLast? after.head? = false := by
    by_cases hcomment : f'.isComment = true
    · rw [separates_comment_iff hcomment, ← h.comment before f' after hfs hcomment, hplaced]
      simp
    · rw [Fragment.separates, if_neg hcomment]
      constructor
      · rintro rfl
        obtain ⟨p, hp, hf⟩ := mem_placed_true_iff.1 hmem
        exact h.part p hp f' hf
      · intro hsep
        cases inside with
        | true => rfl
        | false =>
            have hbreak := h.separator f' (mem_placed_false_iff.1 hmem)
            exact absurd hbreak (by simp [Fragment.isBreak, hsep, hcomment])
  rw [hplaced, Option.some.injEq, Prod.mk.injEq, Bool.eq_iff_iff, hinside, Bool.not_eq_true']
  exact ⟨rfl, Iff.rfl⟩

theorem eq_of_alternation {hs : List Segment} (hother : Alternation fs hs) : gs = hs := by
  have hplaced : placed gs = placed hs := by
    refine List.ext_getElem? fun i => ?_
    by_cases hi : i < fs.length
    · have hfs : fs = fs.take i ++ fs[i] :: fs.drop (i + 1) := by simp
      have hlength : (fs.take i).length = i := List.length_take_of_le hi.le
      have hgs := h.getElem?_placed hfs
      rw [← hother.getElem?_placed hfs, hlength] at hgs
      exact hgs
    · rw [List.getElem?_eq_none, List.getElem?_eq_none]
      · rw [length_placed, hother.fragments]
        exact Nat.le_of_not_lt hi
      · rw [length_placed, h.fragments]
        exact Nat.le_of_not_lt hi
  rw [← regroup_placed h.part_ne_nil h.apart, hplaced,
    regroup_placed hother.part_ne_nil hother.apart]

section
variable {left right : List Segment} {p : List Fragment} (hgs : gs = left ++ .part p :: right)
include hgs

/-- What stands right before a part separates. -/
theorem isBreak_before_part : ∀ f ∈ (left.flatMap Segment.fragments).getLast?,
    f.isBreak = true := by
  intro f hf
  obtain rfl | ⟨left', g, rfl⟩ := List.eq_nil_or_concat left
  · exact absurd hf (by simp)
  · have hapart := h.apart
    rw [hgs] at hapart
    have hg := (List.isChain_append.1 hapart).2.2 g (by simp) (.part p) (by simp)
    cases g with
    | part q => exact absurd hg (by simp [Segment.Apart, Segment.isPart])
    | separator d =>
        obtain rfl : d = f := by simpa [Segment.fragments] using hf
        exact h.separator d (by simp [hgs])

/-- What stands right behind a part separates. -/
theorem isBreak_behind_part : ∀ f ∈ (right.flatMap Segment.fragments).head?,
    f.isBreak = true := by
  intro f hf
  cases right with
  | nil => exact absurd hf (by simp)
  | cons g right =>
      have hapart := h.apart
      rw [hgs] at hapart
      have hg := (List.isChain_cons.1 (List.isChain_append.1 hapart).2.1).1 g rfl
      cases g with
      | part q => exact absurd hg (by simp [Segment.Apart, Segment.isPart])
      | separator d =>
          obtain rfl : d = f := by simpa [Segment.fragments] using hf
          exact h.separator d (by simp [hgs])

end

/-- A part neither starts nor ends with a comment. -/
theorem isComment_ends {p : List Fragment} (hp : .part p ∈ gs) :
    (∀ f ∈ p.head?, f.isComment = false) ∧ ∀ f ∈ p.getLast?, f.isComment = false := by
  obtain ⟨left, right, hgs⟩ := List.append_of_mem hp
  constructor
  · intro f hf
    refine Bool.eq_false_iff.2 fun hcomment => ?_
    obtain ⟨r, rfl⟩ := List.head?_eq_some_iff.1 (Option.mem_def.1 hf)
    have hfs : fs = left.flatMap Segment.fragments ++ [] ++
        f :: (r ++ right.flatMap Segment.fragments) := by
      rw [← h.fragments, hgs]
      simp [Segment.fragments]
    have hplaced := getElem?_placed_part left right [] r f
    rw [List.nil_append, ← hgs] at hplaced
    obtain ⟨⟨g, hg, hbreak⟩, -⟩ := (h.comment _ f _ hfs hcomment).1 hplaced
    rw [List.append_nil] at hg
    rw [h.isBreak_before_part hgs g hg] at hbreak
    exact absurd hbreak (by simp)
  · intro f hf
    refine Bool.eq_false_iff.2 fun hcomment => ?_
    obtain ⟨q, rfl⟩ := List.getLast?_eq_some_iff.1 (Option.mem_def.1 hf)
    have hfs : fs = left.flatMap Segment.fragments ++ q ++
        f :: right.flatMap Segment.fragments := by
      rw [← h.fragments, hgs]
      simp [Segment.fragments]
    have hplaced := getElem?_placed_part left right q [] f
    rw [← hgs] at hplaced
    obtain ⟨-, g, hg, hbreak⟩ := (h.comment _ f _ hfs hcomment).1 hplaced
    rw [h.isBreak_behind_part hgs g hg] at hbreak
    exact absurd hbreak (by simp)

end Alternation

/-- The segments of fragments are the only way to cut them into parts and separators in turn, and no
part starts or ends with a comment. -/
theorem alternation_iff (fs : List Fragment) :
    (∀ gs, Alternation fs gs ↔ gs = segment fs) ∧
      ∀ p, .part p ∈ segment fs →
        (∀ f ∈ p.head?, f.isComment = false) ∧ ∀ f ∈ p.getLast?, f.isComment = false := by
  refine ⟨fun gs => ⟨fun h => h.eq_of_alternation (alternation_segment fs), ?_⟩, fun p hp => ?_⟩
  · rintro rfl
    exact alternation_segment fs
  · exact (alternation_segment fs).isComment_ends hp

/-- One comment is squeezed into a part and the other two are not. -/
theorem alternation_iff_comments :
    let note : Fragment := .comment "/**/".toList
    let part : List Fragment := [.className ['a'], note, .className ['b']]
    let fs : List Fragment := part ++ [note, note, .combinator ['>'], .universal]
    let gs : List Segment := [.part part, .separator note, .separator note,
      .separator (.combinator ['>']), .part [.universal]]
    segment fs = gs ∧ Alternation fs gs ∧ .part part ∈ segment fs ∧
      (∀ f ∈ part.head?, f.isComment = false) ∧ ∀ f ∈ part.getLast?, f.isComment = false := by
  intro note part fs gs
  have hsegment : segment fs = gs := rfl
  have hpart : .part part ∈ segment fs := hsegment ▸ List.mem_cons_self
  obtain ⟨halternation, hends⟩ := alternation_iff fs
  exact ⟨hsegment, (halternation gs).2 hsegment.symm, hpart, hends part hpart⟩

end StyleScope.Selector
