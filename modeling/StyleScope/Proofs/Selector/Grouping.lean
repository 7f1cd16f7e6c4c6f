import StyleScope.Proofs.Selector.RoundTrip

/-! # Compound parts among their neighbours

Whether a fragment separates parts depends on its neighbours, and of a neighbour it matters only
whether it keeps a comment inside its part (`segmentAfter_congr`). A run of fragments is a part just
when no fragment of it separates and a part neither precedes nor follows it; `segmentAfter_part` and
`segmentAfter_eq_part` give the two directions.

Whether a selector is malformed depends on the outlines of its segments alone
(`isMalformed_of_map_outline`).
-/
namespace StyleScope.Selector
open Text

variable {before before' after after' : Option Fragment}

theorem Fragment.separates_congr (f : Fragment) (hb : joins before = joins before')
    (ha : joins after = joins after') : f.separates before after = f.separates before' after' := by
  unfold Fragment.separates
  rw [hb, ha]

theorem segmentAfter_congr (h : Fragment.joins before = Fragment.joins before')
    (fs : List Fragment) : segmentAfter before fs = segmentAfter before' fs := by
  cases fs with
  | nil => rfl
  | cons f fs => rw [segmentAfter, segmentAfter, f.separates_congr h rfl]

/-- No fragment of a run separates, given what stands before and after the run. -/
def Glued (before after : Option Fragment) : List Fragment → Prop
  | [] => True
  | f :: fs => f.separates before (fs.head?.or after) = false ∧ Glued (some f) after fs

theorem Glued.congr {p : List Fragment} (h : Glued before after p)
    (hb : Fragment.joins before = Fragment.joins before')
    (ha : Fragment.joins after = Fragment.joins after') : Glued before' after' p := by
  induction p generalizing before before' with
  | nil => trivial
  | cons f fs ih =>
      refine ⟨?_, ih h.2 rfl⟩
      rw [← h.1]
      refine f.separates_congr hb.symm ?_
      cases fs with
      | nil => exact ha.symm
      | cons g gs => rfl

def StartsApart (gs : List Segment) : Prop := gs.head?.any Segment.isPart = false

theorem attach_startsApart (f : Fragment) {gs : List Segment} (h : StartsApart gs) :
    Segment.attach f false gs = .part [f] :: gs := by
  cases gs with
  | nil => rfl
  | cons g gs =>
      cases g with
      | part fs => exact absurd h (by simp [StartsApart, Segment.isPart])
      | separator s => rfl

theorem exists_part_of_not_startsApart {gs : List Segment} (h : ¬StartsApart gs) :
    ∃ ps tail, gs = .part ps :: tail := by
  cases gs with
  | nil => exact absurd rfl h
  | cons g gs =>
      cases g with
      | part ps => exact ⟨ps, gs, rfl⟩
      | separator s => exact absurd rfl h

/-- A glued run is a part of its own if no part follows it. -/
theorem segmentAfter_part {p rest : List Fragment} (hp : p ≠ []) (hg : Glued before rest.head? p)
    (hr : StartsApart (segmentAfter p.getLast? rest)) :
    segmentAfter before (p ++ rest) = .part p :: segmentAfter p.getLast? rest := by
  induction p generalizing before with
  | nil => exact absurd rfl hp
  | cons f fs ih =>
      cases fs with
      | nil =>
          have hf : f.separates before rest.head? = false := hg.1
          rw [List.cons_append, List.nil_append, segmentAfter, hf]
          exact attach_startsApart f hr
      | cons g gs =>
          have hlast : (f :: g :: gs).getLast? = (g :: gs).getLast? := List.getLast?_cons_cons
          have hf : f.separates before (g :: gs ++ rest).head? = false := hg.1
          have htail := ih (by simp) hg.2 (hlast ▸ hr)
          rw [List.cons_append, segmentAfter, hf, htail, hlast]
          rfl

/-- The first part of the segments is glued, and the segments behind it are those of the rest. -/
theorem segmentAfter_eq_part {fs p : List Fragment} {gs : List Segment}
    (h : segmentAfter before fs = .part p :: gs) :
    ∃ rest, fs = p ++ rest ∧ p ≠ [] ∧ Glued before rest.head? p ∧
      gs = segmentAfter p.getLast? rest ∧ StartsApart gs := by
  induction fs generalizing before p gs with
  | nil => simp [segmentAfter] at h
  | cons f fs ih =>
      rw [segmentAfter] at h
      cases hf : f.separates before fs.head? with
      | true => simp [hf, Segment.attach] at h
      | false =>
          rw [hf] at h
          by_cases hr : StartsApart (segmentAfter (some f) fs)
          · rw [attach_startsApart f hr, List.cons.injEq, Segment.part.injEq] at h
            obtain ⟨rfl, rfl⟩ := h
            exact ⟨fs, rfl, by simp, ⟨hf, trivial⟩, rfl, hr⟩
          · obtain ⟨ps, tail, hps⟩ := exists_part_of_not_startsApart hr
            obtain ⟨rest, hfs, hne, hglued, htail, hapart⟩ := ih hps
            rw [hps] at h
            simp only [Segment.attach, Bool.false_eq_true, if_false, List.cons.injEq,
              Segment.part.injEq] at h
            obtain ⟨rfl, rfl⟩ := h
            obtain ⟨d, ds, rfl⟩ := List.exists_cons_of_ne_nil hne
            rw [hfs] at hf
            exact ⟨rest, by rw [hfs]; rfl, by simp, ⟨hf, hglued⟩, htail, hapart⟩

/-- A separator at the head of the segments separates, and those behind it are of the rest. -/
theorem segmentAfter_eq_separator {fs : List Fragment} {f : Fragment} {gs : List Segment}
    (h : segmentAfter before fs = .separator f :: gs) :
    ∃ rest, fs = f :: rest ∧ f.separates before rest.head? = true ∧
      gs = segmentAfter (some f) rest := by
  cases fs with
  | nil => simp [segmentAfter] at h
  | cons d rest =>
      rw [segmentAfter] at h
      cases hd : d.separates before rest.head? with
      | true =>
          simp only [hd, Segment.attach, if_true, List.cons.injEq, Segment.separator.injEq] at h
          obtain ⟨rfl, rfl⟩ := h
          exact ⟨rest, rfl, hd, rfl⟩
      | false =>
          rw [hd] at h
          by_cases hr : StartsApart (segmentAfter (some d) rest)
          · simp [attach_startsApart d hr] at h
          · obtain ⟨ps, tail, hps⟩ := exists_part_of_not_startsApart hr
            simp [hps, Segment.attach] at h

/-- Whether a segment is a part, and whether it is an unbalanced part or a combinator. -/
def Segment.outline : Segment → Bool × Bool
  | part fs => (true, fs.any Fragment.isUnbalanced)
  | separator (.combinator _) => (false, true)
  | separator _ => (false, false)

theorem isBroken_cons (pending : Bool) (g : Segment) (gs : List Segment) :
    isBroken pending (g :: gs) =
      match g.outline with
      | (true, unbalanced) => unbalanced || isBroken false gs
      | (false, true) => pending || isBroken true gs
      | (false, false) => isBroken pending gs := by
  cases g with
  | part fs => rfl
  | separator f =>
      cases f with
      | _ => rfl

theorem Segment.fst_outline (g : Segment) : g.outline.1 = g.isPart := by
  cases g with
  | part fs => rfl
  | separator f =>
      cases f with
      | _ => rfl

section
variable {gs hs : List Segment} (h : gs.map Segment.outline = hs.map Segment.outline)
include h

theorem isBroken_of_map_outline (pending : Bool) : isBroken pending gs = isBroken pending hs := by
  induction gs generalizing hs pending with
  | nil => rw [List.map_eq_nil_iff.1 h.symm]
  | cons g gs ih =>
      cases hs with
      | nil => exact absurd h (by simp)
      | cons d hs =>
          obtain ⟨hd, htail⟩ := List.cons.inj h
          rw [isBroken_cons, isBroken_cons, hd]
          simp only [ih htail]

theorem map_isPart_of_map_outline : gs.map Segment.isPart = hs.map Segment.isPart := by
  have hfst := congrArg (List.map Prod.fst) h
  simpa [Function.comp_def, Segment.fst_outline] using hfst

theorem isMalformed_of_map_outline : isMalformed gs = isMalformed hs := by
  have hany : gs.any Segment.isPart = hs.any Segment.isPart := by
    have hparts := congrArg (List.any · id) (map_isPart_of_map_outline h)
    simpa [List.any_map] using hparts
  rw [isMalformed, isMalformed, hany, isBroken_of_map_outline h]

end

end StyleScope.Selector
