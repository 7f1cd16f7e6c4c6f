import StyleScope.Options.Basic
import StyleScope.Proofs.Selector.NameTests

/-! # Tokens of plain options

A scope or a component can be any text that is not blank, and then its tokens can be read as
anything. If both are plain names and no templates are given, each token is read as a single test:
the element token as an attribute test, and the host token as an attribute test or, when there is a
component, as the type selector of its name (`Options.Plain.singleTokens`).
-/
namespace StyleScope
open Text Selector

/-- A name of ASCII letters, digits, hyphens and underscores that starts with a letter. -/
def IsPlainName (n : Text) : Prop :=
  n.head?.any isLetter = true ∧
    (n.all fun c => isLetter c || isDigit c || c = '-' || c = '_') = true

instance (n : Text) : Decidable (IsPlainName n) := inferInstanceAs (Decidable (_ ∧ _))

theorem IsPlainName.all_isNamePart {n : Text} (h : IsPlainName n) : n.all isNamePart = true := by
  refine List.all_eq_true.2 fun c hc => ?_
  have hplain := List.all_eq_true.1 h.2 c hc
  simp only [Bool.or_eq_true, decide_eq_true_eq] at hplain
  obtain ((hletter | hdigit) | rfl) | rfl := hplain
  · rw [isNamePart, isNameStart, hletter]
    rfl
  · rw [isNamePart, hdigit, Bool.or_true]
  · rfl
  · rfl

theorem IsPlainName.isName {n : Text} (h : IsPlainName n) : IsName n := by
  cases n with
  | nil => exact absurd h.1 (by simp)
  | cons c r =>
      have hletter : isLetter c = true := by simpa using h.1
      have hstart : isNameStart c = true := by
        rw [isNameStart, hletter]
        rfl
      have hhyphen : c ≠ '-' := by
        rintro rfl
        exact absurd hletter (by decide)
      have hall := h.all_isNamePart
      rw [List.all_cons, Bool.and_eq_true] at hall
      have hshape : NameShape ([c] ++ r) :=
        .plain (.inl ⟨c, rfl, hstart⟩) (by simpa using hhyphen) (nameText_of_all hall.2)
      exact isName_iff_nameShape.2 hshape

namespace Selector

theorem tokenize_name {n : Text} (h : IsName n) : tokenize n = [.identifier n] := by
  have hread := tokenize_of_stands (Lexeme.Stands.identifier h nameEnds_nil)
  simpa [Lexeme.fragment] using hread

theorem encloses_of_all_isNamePart {t : Text} (h : t.all isNamePart = true) :
    Encloses '[' ']' t := by
  have hrests : (closingScan '[' ']').Rests {} t := by
    induction t with
    | nil => exact Scan.rests_nil
    | cons c r ih =>
        rw [List.all_cons, Bool.and_eq_true] at h
        have hne : ∀ d, isNamePart d = false → c ≠ d := by
          rintro d hd rfl
          exact absurd h.1 (by simp [hd])
        have hone : (closingScan '[' ']').Rests {} [c] := by
          have hopen := hne '[' rfl
          have hclose := hne ']' rfl
          have hback := hne '\\' rfl
          have hsingle := hne '\'' rfl
          have hdouble := hne '"' rfl
          rw [Scan.Rests, Scan.passes_cons, Scan.after_cons]
          simp [closingScan, Cover.next, Cover.afterExposed, bracketDialect, hopen, hclose, hback,
            hsingle, hdouble]
        exact hone.append (ih h.2)
  exact ⟨hrests.1, by rw [hrests.2]; rfl⟩

end Selector

namespace Scope

/-- The element token is read as an attribute test, and the host token as one or as a type
selector. -/
structure SingleTokens (ctx : Context) : Prop where
  element : tokenize ctx.elementToken = [.attr ctx.elementToken]
  host : tokenize ctx.hostToken = [.attr ctx.hostToken] ∨
    tokenize ctx.hostToken = [.identifier ctx.hostToken]

end Scope

namespace Options
open Scope

/-- Options that name the scope and the component plainly and leave the tokens at their defaults. -/
structure Plain (o : Options) : Prop where
  scope : ∀ n ∈ o.scope, IsPlainName n
  component : ∀ n ∈ o.component, IsPlainName n
  elementToken : o.elementToken = none
  hostToken : o.hostToken = none

theorem mem_of_present {value : Option Text} {t : Text} (h : present value = some t) :
    t ∈ value :=
  (Option.filter_eq_some_iff.1 h).1

theorem fillTemplate_elementTemplate (scope : Text) :
    fillTemplate scope elementTemplate = '[' :: scope ++ [']'] := rfl

theorem fillTemplate_hostTemplate (scope : Text) :
    fillTemplate scope hostTemplate = '[' :: (scope ++ "-host".toList) ++ [']'] := by
  have hfill : fillTemplate scope hostTemplate = '[' :: (scope ++ "-host]".toList) := rfl
  simp [hfill]

section
variable {o : Options} (h : o.Plain)
include h

theorem Plain.all_resolvedScope {scope : Text} (hscope : o.resolvedScope = some scope) :
    scope.all isNamePart = true := by
  rw [resolvedScope, Option.or_eq_some_iff, Option.map_eq_some_iff] at hscope
  obtain hgiven | ⟨-, name, hname, rfl⟩ := hscope
  · exact (h.scope scope (mem_of_present hgiven)).all_isNamePart
  · rw [List.all_cons, (h.component name (mem_of_present hname)).all_isNamePart]
    rfl

theorem Plain.tokenize_resolvedHost {scope : Text} (hscope : scope.all isNamePart = true) :
    tokenize (o.resolvedHost scope) = [.attr (o.resolvedHost scope)] ∨
      tokenize (o.resolvedHost scope) = [.identifier (o.resolvedHost scope)] := by
  rw [resolvedHost, h.hostToken]
  cases hname : present o.component with
  | none =>
      have hinside : (scope ++ "-host".toList).all isNamePart = true := by
        rw [List.all_append, hscope]
        rfl
      left
      dsimp only
      rw [fillTemplate_hostTemplate]
      exact tokenize_attr _ (encloses_of_all_isNamePart hinside)
  | some name => exact .inr (tokenize_name (h.component name (mem_of_present hname)).isName)

/-- The tokens of plain options are single tests. -/
theorem Plain.singleTokens {ctx : Context} (hctx : o.toContext = .ok ctx) : SingleTokens ctx := by
  unfold toContext at hctx
  split at hctx
  · exact absurd hctx (by simp)
  · next scope hscope =>
    have hall := h.all_resolvedScope hscope
    by_cases hblank : isBlankText scope = true
    · rw [Context.ofScope, if_pos hblank] at hctx
      exact absurd hctx (by simp [Except.map])
    · rw [Context.ofScope, if_neg hblank, h.elementToken] at hctx
      obtain rfl := Except.ok.inj hctx
      refine ⟨?_, h.tokenize_resolvedHost hall⟩
      dsimp only [Option.getD_none]
      rw [fillTemplate_elementTemplate]
      exact tokenize_attr _ (encloses_of_all_isNamePart hall)

end

end Options
end StyleScope
