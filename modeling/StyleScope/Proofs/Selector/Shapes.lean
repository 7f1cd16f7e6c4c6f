import StyleScope.Proofs.Selector.NameTests
import StyleScope.Proofs.Selector.Slices
import StyleScope.Selector.Listing

/-! # The shape of fragments

What a fragment looks like depends on its kind alone (`Fragment.Shaped`), at every depth of a
selector, and so does what may stand next to it: space is read as far as it goes, and so is a name,
while arguments that are never closed take in all that follows. A character is left over as a raw
fragment only where it starts nothing by itself.
-/
namespace StyleScope.Selector
open Text

namespace Fragment

def colons? : Fragment → Option Nat
  | pseudo colons _ | function colons _ _ _ => some colons
  | _ => none

def isWhitespace : Fragment → Bool
  | whitespace _ => true
  | _ => false

/-- A pseudo selector with arguments that are never closed. -/
def isUnclosed : Fragment → Bool
  | function _ _ _ closed => !closed
  | _ => false

/-- What the fragments of each kind look like. -/
inductive Shaped : Fragment → Prop
  | identifier {n : Text} : NameShape n → Shaped (.identifier n)
  | universal : Shaped .universal
  | id {n : Text} : NameShape n → Shaped (.id n)
  | className {n : Text} : NameShape n → Shaped (.className n)
  | attr (inside : Text) : Shaped (.attr ('[' :: inside ++ [']']))
  | pseudo {colons : Nat} {n : Text} : 1 ≤ colons → NameShape n → Shaped (.pseudo colons n)
  | function {colons : Nat} {n : Text} (arguments : List Fragment) (closed : Bool) : 1 ≤ colons →
      NameShape n → Shaped (.function colons n arguments closed)
  | combinator {lead trail : Text} {d : Char} : lead.all isSpace = true →
      Text.isCombinator d = true → trail.all isSpace = true →
      Shaped (.combinator (lead ++ d :: trail))
  | whitespace {s : Text} : s ≠ [] → s.all isSpace = true → Shaped (.whitespace s)
  | string {q : Char} (body : Text) : isQuote q = true → Shaped (.string (q :: body))
  | comment (body : Text) : Shaped (.comment ('/' :: '*' :: body))
  /-- Of the characters that start a name only a hyphen can be left over. -/
  | raw {c : Char} : isSpace c = false → Text.isCombinator c = false → isQuote c = false →
      c ≠ '*' → (isNameStart c = true → c = '-') → Shaped (.raw [c])

/-- Whitespace is not next to other whitespace, nor to a combinator on either side. -/
def SpacedApart (f g : Fragment) : Prop :=
  ((f.isWhitespace && g.isSeparator) || (f.isSeparator && g.isWhitespace)) = false

end Fragment

namespace Lexeme

theorem StartsNothing.eq_hyphen {c : Char} {t : Text} (h : StartsNothing c t)
    (hc : isNameStart c = true) : c = '-' := by
  refine Decidable.byContradiction fun hne => ?_
  have hb : c ≠ '\\' := by
    rintro rfl
    exact absurd hc (by decide)
  have hsome := isSome_name?_cons c t
  rw [h.name, if_neg hne, if_neg hb, hc] at hsome
  exact absurd hsome (by simp)

theorem Stands.shaped {x : Lexeme} {t : Text} (h : Stands x t) : x.fragment.Shaped := by
  cases h with
  | identifier hn _ => exact .identifier (isName_iff_nameShape.1 hn)
  | className hn _ => exact .className (isName_iff_nameShape.1 hn)
  | id hn _ => exact .id (isName_iff_nameShape.1 hn)
  | attr _ => exact .attr _
  | pseudo hn _ _ => exact .pseudo (Nat.le_add_left 1 _) (isName_iff_nameShape.1 hn)
  | call hn _ => exact .function _ _ (Nat.le_add_left 1 _) (isName_iff_nameShape.1 hn)
  | openCall hn _ => exact .function _ _ (Nat.le_add_left 1 _) (isName_iff_nameShape.1 hn)
  | combinator hlead hd htrail _ => exact .combinator hlead hd htrail
  | universal => exact .universal
  | whitespace hs _ => exact .whitespace (List.cons_ne_nil _ _) hs
  | string hq _ _ => exact .string _ hq
  | lineString hq _ _ _ => exact .string _ hq
  | openString hq _ => exact .string _ hq
  | comment _ _ => exact .comment _
  | openComment _ => exact .comment _
  | raw hraw =>
      exact .raw hraw.space hraw.combinator hraw.quote hraw.star hraw.eq_hyphen

section
variable {x : Lexeme} {t : Text} (h : Stands x t)
include h

theorem Stands.starts_of_isWhitespace (hx : x.fragment.isWhitespace = true) :
    (x.text ++ t).head?.any isSpace = true ∧ t.head?.any isGap = false := by
  cases h with
  | whitespace hs hend =>
      rw [List.all_cons, Bool.and_eq_true] at hs
      exact ⟨hs.1, hend⟩
  | _ => exact absurd hx (by simp [fragment, Fragment.isWhitespace])

theorem Stands.starts_of_isSeparator (hx : x.fragment.isSeparator = true) :
    (x.text ++ t).head?.any isGap = true ∧ t.head?.any isSpace = false := by
  cases h with
  | @whitespace c r _ hs hend =>
      rw [List.all_cons, Bool.and_eq_true] at hs
      refine ⟨by simp [isGap, hs.1], ?_⟩
      cases t with
      | nil => rfl
      | cons d u =>
          obtain ⟨hspace, -⟩ : isSpace d = false ∧ isCombinator d = false := by simpa using hend
          simpa using hspace
  | @combinator lead trail _ d hlead hd _ hend =>
      refine ⟨?_, hend⟩
      cases lead with
      | nil => simp [isGap, hd]
      | cons c r =>
          rw [List.all_cons, Bool.and_eq_true] at hlead
          simp [isGap, hlead.1]
  | _ => exact absurd hx (by simp [fragment, Fragment.isSeparator])

end

/-- Space is read to its end, and so is the space around a combinator. -/
theorem Stands.spacedApart {x y : Lexeme} {t : Text} (hx : Stands x (y.text ++ t))
    (hy : Stands y t) : x.fragment.SpacedApart y.fragment := by
  refine Bool.eq_false_iff.2 fun hmeet => ?_
  rw [Bool.or_eq_true, Bool.and_eq_true, Bool.and_eq_true] at hmeet
  obtain ⟨hspace, hsep⟩ | ⟨hsep, hspace⟩ := hmeet
  · have hnone := (hx.starts_of_isWhitespace hspace).2
    rw [(hy.starts_of_isSeparator hsep).1] at hnone
    exact absurd hnone (by simp)
  · have hnone := (hx.starts_of_isSeparator hsep).2
    rw [(hy.starts_of_isWhitespace hspace).1] at hnone
    exact absurd hnone (by simp)

theorem Stands.eq_nil_of_isUnclosed {x : Lexeme} {t : Text} (h : Stands x t)
    (hx : x.fragment.isUnclosed = true) : t = [] := by
  cases h with
  | openCall _ _ => rfl
  | _ => exact absurd hx (by simp [fragment, Fragment.isUnclosed])

end Lexeme

theorem shaped_of_mem_tokenize {t : Text} {f : Fragment} (h : f ∈ tokenize t) : f.Shaped := by
  obtain ⟨c, r, rfl⟩ := exists_read_of_mem_tokenize h
  exact (Lexeme.stands_read c r).shaped

theorem kind_of_colons_iff (colons : Nat) :
    (if colons = 1 then "pseudo-class".toList else "pseudo-element".toList) =
        "pseudo-class".toList ↔ some colons = some 1 := by
  have hne : "pseudo-element".toList ≠ "pseudo-class".toList := by decide
  by_cases hc : colons = 1
  · simp only [hc, if_true]
  · rw [if_neg hc]
    exact iff_of_false hne (by simpa using hc)

theorem Fragment.kind_eq_pseudoClass_iff (f : Fragment) :
    f.kind = "pseudo-class".toList ↔ f.colons? = some 1 := by
  cases f with
  | pseudo colons n => exact kind_of_colons_iff colons
  | function colons n arguments closed => exact kind_of_colons_iff colons
  | _ =>
      -- `unfold` would have the equations of `kind` proved first, over all pairs of its texts
      delta kind
      refine iff_of_false ?_ (show none ≠ some 1 by decide)
      dsimp only
      decide

theorem arguments?_of_isUnclosed {f : Fragment} (h : f.isUnclosed = true) :
    f.arguments?.isSome = true := by
  cases f with
  | function colons n arguments closed => rfl
  | _ => exact absurd h (by simp [Fragment.isUnclosed])

/-- Nothing is read behind arguments that are never closed. -/
theorem eq_nil_of_isUnclosed {t : Text} {before after : List Fragment} {f : Fragment}
    (h : tokenize t = before ++ f :: after) (hf : f.isUnclosed = true) : after = [] := by
  obtain ⟨u, hu⟩ := exists_tokenize_of_eq_append h
  obtain ⟨x, v, hx, -, rfl, hv⟩ := exists_stands_of_tokenize hu
  rw [hx.eq_nil_of_isUnclosed hf, tokenize_nil] at hv
  exact hv.symm

/-- At every depth of a selector the fragments have the shape of their kind, only the last one of a
sequence can be unclosed, and neither space nor a name is broken in two. -/
theorem tokenize_shaped {t : Text} {fs : List Fragment} (h : Sequence t fs) :
    (∀ f ∈ fs, f.Shaped ∧ (f.kind = "pseudo-class".toList ↔ f.colons? = some 1)) ∧
      (∀ before f after, fs = before ++ f :: after → f.isUnclosed = true →
        f.arguments?.isSome = true ∧ after = []) ∧
      fs.IsChain Fragment.SpacedApart ∧ fs.IsChain Fragment.Apart := by
  obtain ⟨u, rfl⟩ := h.exists_tokenize
  refine ⟨fun f hf => ⟨shaped_of_mem_tokenize hf, f.kind_eq_pseudoClass_iff⟩, ?_,
    isChain_of_stands Lexeme.Stands.spacedApart u, isChain_tokenize u⟩
  intro before f after hcut hf
  exact ⟨arguments?_of_isUnclosed hf, eq_nil_of_isUnclosed hcut hf⟩

/-- Arguments inside arguments, neither of them closed, and a full stop that no name follows. -/
theorem tokenize_shaped_open :
    let t : Text := "a :is(-b> ::c(. \\d".toList
    ∃ fs, Sequence t fs ∧
      fs.map (fun f => (f.text, f.isUnclosed)) =
        [("-b".toList, false), ("> ".toList, false), ("::c(. \\d".toList, true)] ∧
      (∀ f ∈ fs, f.Shaped) ∧ fs.IsChain Fragment.SpacedApart ∧ fs.IsChain Fragment.Apart := by
  intro t
  have hread : (tokenize t).flatMap (fun f =>
      (f.arguments?.map (·.map fun g => (g.text, g.isUnclosed))).toList) =
      [[("-b".toList, false), ("> ".toList, false), ("::c(. \\d".toList, true)]] := by
    decide +kernel
  have hmem := List.mem_singleton_self
    [("-b".toList, false), ("> ".toList, false), ("::c(. \\d".toList, true)]
  rw [← hread] at hmem
  obtain ⟨f, hf, harguments⟩ := List.mem_flatMap.1 hmem
  obtain ⟨fs, hsome, htexts⟩ := Option.map_eq_some_iff.1 (Option.mem_toList.1 harguments)
  have hsequence : Sequence t fs := .arguments .top hf hsome
  obtain ⟨hshaped, -, hspaced, hapart⟩ := tokenize_shaped hsequence
  exact ⟨fs, hsequence, htexts, fun g hg => (hshaped g hg).1, hspaced, hapart⟩

end StyleScope.Selector
