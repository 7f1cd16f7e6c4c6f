import StyleScope.Proofs.Selector.Lookahead
import StyleScope.Proofs.Selector.RoundTrip

/-! # Reading a slice again

A fragment may look far ahead before it is taken: for the bracket, the quote or the end of a comment
that closes it, or for a name behind its sign. What it finds there is part of the fragment, and what
it fails to find is missing from any shorter text too. So a text can be cut behind each of its
fragments, and what lies in front of the cut is read as before (`tokenize_render_of_eq_append`). In
front of a fragment it can be cut anyway, for nothing is known there of what was read before. Hence
every slice of a selector is read again from its own text (`tokenize_render_slice`).
-/
namespace StyleScope.Selector
open Text

namespace Lexeme

theorem StartsNothing.at_end {c : Char} {t : Text} (h : StartsNothing c t) : StartsNothing c [] where
  name := by
    have hname : (name? (c :: t)).isSome = false := by rw [h.name]; rfl
    have hend : (name? [c]).isSome = false := by
      rw [isSome_name?_cons] at hname ⊢
      by_cases hh : c = '-'
      · rw [if_pos hh]
        rfl
      · by_cases hb : c = '\\'
        · rw [if_neg hh, if_pos hb]
          rfl
        · rw [if_neg hh, if_neg hb] at hname ⊢
          exact hname
    exact Option.isNone_iff_eq_none.1 (by simpa using hend)
  signed _ := rfl
  bracket _ := rfl
  colon _ := rfl
  space := h.space
  combinator := h.combinator
  star := h.star
  quote := h.quote
  slash _ := by simp

/-- A lexeme may stand at the end of the text, whatever it was read in front of. -/
theorem Stands.at_end {x : Lexeme} {t : Text} (h : Stands x t) : Stands x [] := by
  cases h with
  | identifier hn _ => exact .identifier hn nameEnds_nil
  | className hn _ => exact .className hn nameEnds_nil
  | id hn _ => exact .id hn nameEnds_nil
  | attr he => exact .attr he
  | pseudo hn _ _ => exact .pseudo hn nameEnds_nil (by simp)
  | call hn he => exact .call hn he
  | openCall hn he => exact .openCall hn he
  | combinator hlead hd htrail _ => exact .combinator hlead hd htrail rfl
  | universal => exact .universal
  | whitespace hs _ => exact .whitespace hs rfl
  | string hq hp hend => exact .string hq hp hend
  -- the line that ended the string is gone, and so it runs to the end
  | lineString hq hp _ _ => exact .openString hq hp
  | openString hq hp => exact .openString hq hp
  | comment hp hstar => exact .comment hp hstar
  | openComment hp => exact .openComment hp
  | raw hraw => exact .raw hraw.at_end

theorem Stands.splitClosing?_eq_none {t : Text} (h : Stands (leaf (.raw ['['])) t) :
    splitClosing? '[' ']' t = none := by
  cases h with
  | raw hraw => exact hraw.bracket rfl

end Lexeme

theorem splitClosing?_eq_none_of_append {opening closing : Char} {u v : Text}
    (h : splitClosing? opening closing (u ++ v) = none) :
    splitClosing? opening closing u = none :=
  splitClosing?_eq_none_iff.2 (Scan.passes_append.1 (splitClosing?_eq_none_iff.1 h)).1

/-- The fragments in front of a cut are read again, and their text looks like the whole. -/
theorem tokenize_render_of_eq_append {s : Text} {fs gs : List Fragment}
    (h : tokenize s = fs ++ gs) :
    tokenize (render fs) = fs ∧ (fs ≠ [] → LooksLike s (render fs)) := by
  -- what follows the first fragment is cut off whole or looks as it did, so the look is carried along
  induction fs generalizing s with
  | nil => exact ⟨tokenize_nil, fun hne => absurd rfl hne⟩
  | cons f fs ih =>
      rw [List.cons_append] at h
      obtain ⟨x, t, hx, rfl, rfl, ht⟩ := exists_stands_of_tokenize h
      obtain ⟨htail, hlooks⟩ := ih ht
      have htext : t = render fs ++ render gs := by
        rw [← render_append, ← ht, render_tokenize]
      have hx' : Lexeme.Stands x (render fs) := by
        by_cases hfs : fs = []
        · rw [hfs]
          exact hx.at_end
        · refine hx.congr (hlooks hfs) fun hraw => ?_
          rw [hraw, htext] at hx
          exact splitClosing?_eq_none_of_append hx.splitClosing?_eq_none
      rw [render_cons, Lexeme.text_fragment]
      refine ⟨?_, fun _ => Lexeme.looksLike_of_alike (.refl x) hx hx'⟩
      rw [tokenize_of_stands hx', htail]

/-- The fragments behind a cut are those of a text of their own. -/
theorem exists_tokenize_of_eq_append {s : Text} {fs gs : List Fragment}
    (h : tokenize s = fs ++ gs) : ∃ u, tokenize u = gs := by
  induction fs generalizing s with
  | nil => exact ⟨s, h⟩
  | cons f fs ih =>
      obtain ⟨x, t, -, -, -, ht⟩ := exists_stands_of_tokenize h
      exact ih ht

theorem tokenize_render_of_isInfix {t : Text} {fs : List Fragment} (h : fs <:+: tokenize t) :
    tokenize (render fs) = fs := by
  obtain ⟨before, after, hcut⟩ := h
  obtain ⟨u, hu⟩ := exists_tokenize_of_eq_append (hcut.symm.trans (List.append_assoc _ _ _))
  exact (tokenize_render_of_eq_append hu).1

theorem isInfix_of_mem_segment {fs part : List Fragment} (h : Segment.part part ∈ segment fs) :
    part <:+: fs := by
  obtain ⟨left, right, hsplit⟩ := List.append_of_mem h
  have hfs := fragments_segment fs
  rw [hsplit, List.flatMap_append, List.flatMap_cons, ← List.append_assoc] at hfs
  exact ⟨_, _, hfs⟩

theorem isInfix_trimFragments (fs : List Fragment) : trimFragments fs <:+: fs := by
  have hfront : fs.dropWhile Fragment.isPadding <:+ fs := List.dropWhile_suffix _
  have hback : trimFragments fs <+: fs.dropWhile Fragment.isPadding := by
    have hsuffix := List.dropWhile_suffix (l := (fs.dropWhile Fragment.isPadding).reverse)
      Fragment.isPadding
    have hprefix := List.reverse_prefix.2 hsuffix
    rwa [List.reverse_reverse] at hprefix
  exact hback.isInfix.trans hfront.isInfix

/-- A sequence of fragments read from a selector: its own, or the arguments of a pseudo selector in
such a sequence. -/
inductive Sequence (t : Text) : List Fragment → Prop
  | top : Sequence t (tokenize t)
  | arguments {fs arguments : List Fragment} {f : Fragment} : Sequence t fs → f ∈ fs →
      f.arguments? = some arguments → Sequence t arguments

theorem Sequence.exists_tokenize {t : Text} {fs : List Fragment} (h : Sequence t fs) :
    ∃ u, fs = tokenize u := by
  induction h with
  | top => exact ⟨t, rfl⟩
  | arguments _ hf harguments ih =>
      obtain ⟨u, rfl⟩ := ih
      obtain ⟨c, r, rfl⟩ := exists_read_of_mem_tokenize hf
      exact ⟨_, (Lexeme.argumentsRead_read c r _ harguments).symm⟩

theorem tokenize_render_trimmedArguments {t : Text} {f : Fragment} (hf : f ∈ tokenize t) :
    tokenize (render f.trimmedArguments) = f.trimmedArguments := by
  unfold Fragment.trimmedArguments
  cases ha : f.arguments? with
  | none => exact tokenize_nil
  | some arguments =>
      obtain ⟨u, rfl⟩ := (Sequence.arguments .top hf ha).exists_tokenize
      exact tokenize_render_of_isInfix (isInfix_trimFragments _)

/-- At every depth of a selector, each slice of the fragments is read again from its own text; the
compound parts and the trimmed arguments of pseudo selectors are such slices. -/
theorem tokenize_render_slice (t : Text) :
    (∀ sequence slice, Sequence t sequence → slice <:+: sequence →
        tokenize (render slice) = slice) ∧
      (∀ part, Segment.part part ∈ segment (tokenize t) → tokenize (render part) = part) ∧
      ∀ sequence, Sequence t sequence → ∀ f ∈ sequence,
        tokenize (render f.trimmedArguments) = f.trimmedArguments := by
  refine ⟨?_, ?_, ?_⟩
  · intro sequence slice hsequence hslice
    obtain ⟨u, rfl⟩ := hsequence.exists_tokenize
    exact tokenize_render_of_isInfix hslice
  · intro part hpart
    exact tokenize_render_of_isInfix (isInfix_of_mem_segment hpart)
  · intro sequence hsequence f hf
    obtain ⟨u, rfl⟩ := hsequence.exists_tokenize
    exact tokenize_render_trimmedArguments hf

/-- A string that its line ended, by itself, and a full stop that no name followed. -/
theorem tokenize_render_slice_line :
    let t : Text := "b:is(\"a\n .)i".toList
    ∃ sequence, Sequence t sequence ∧
      sequence.map Fragment.text = ["\"a".toList, "\n ".toList, ".".toList] ∧
      sequence.take 1 <:+: sequence ∧ sequence.drop 2 <:+: sequence ∧
      tokenize "\"a".toList = sequence.take 1 ∧ tokenize ".".toList = sequence.drop 2 := by
  intro t
  have hread : (tokenize t).flatMap (fun f => (f.arguments?.map (·.map Fragment.text)).toList) =
      [["\"a".toList, "\n ".toList, ".".toList]] := by decide +kernel
  have hmem : ["\"a".toList, "\n ".toList, ".".toList] ∈
      (tokenize t).flatMap fun f => (f.arguments?.map (·.map Fragment.text)).toList := by
    rw [hread]
    exact List.mem_singleton_self _
  obtain ⟨f, hf, harguments⟩ := List.mem_flatMap.1 hmem
  obtain ⟨sequence, hsome, htexts⟩ := Option.map_eq_some_iff.1 (Option.mem_toList.1 harguments)
  have hsequence : Sequence t sequence := .arguments .top hf hsome
  have htake : sequence.take 1 <:+: sequence := (List.take_prefix 1 sequence).isInfix
  have hdrop : sequence.drop 2 <:+: sequence := (List.drop_suffix 2 sequence).isInfix
  obtain ⟨hslice, -, -⟩ := tokenize_render_slice t
  have hstring := hslice sequence (sequence.take 1) hsequence htake
  have hstop := hslice sequence (sequence.drop 2) hsequence hdrop
  refine ⟨sequence, hsequence, htexts, htake, hdrop, ?_⟩
  obtain ⟨a, rest, rfl, ha, hrest⟩ := List.map_eq_cons_iff.1 htexts
  obtain ⟨b, rest, rfl, -, hrest⟩ := List.map_eq_cons_iff.1 hrest
  obtain ⟨c, rest, rfl, hc, hrest⟩ := List.map_eq_cons_iff.1 hrest
  obtain rfl := List.map_eq_nil_iff.1 hrest
  simp only [List.take_succ_cons, List.take_zero, List.drop_succ_cons, List.drop_zero, render_cons,
    render_nil, List.append_nil, ha, hc] at hstring hstop ⊢
  exact ⟨hstring, hstop⟩

end StyleScope.Selector
