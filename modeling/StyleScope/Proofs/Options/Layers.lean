import Mathlib.Data.List.Infix
import StyleScope.Options.Basic
import StyleScope.Proofs.Text.Trimming

/-! # Options in layers

A layer may leave any option open, and a value set in a later layer replaces the earlier ones, even
by a blank. `overlay` says what a sequence of layers sets: of each option the last value, and all
parts as soon as one layer asks for them. Layers put behind each other are merged
(`overlay_append`), so it does not matter in which groups they are merged (`Merged.eq_overlay`).

What the overlay stands for is then read off its values. Only here a blank scope or component counts
as none.
-/
namespace StyleScope.Options
open Text Scope

def lastSet (option : Options → Option Text) (layers : List Options) : Option Text :=
  (layers.filterMap option).getLast?

/-- What the layers set together. -/
def overlay (layers : List Options) : Options where
  scope := lastSet scope layers
  component := lastSet component layers
  elementToken := lastSet elementToken layers
  hostToken := lastSet hostToken layers
  scopeAllParts := layers.any scopeAllParts

section
variable (layers : List Options)

@[simp] theorem overlay_scope : (overlay layers).scope = lastSet scope layers := rfl
@[simp] theorem overlay_component : (overlay layers).component = lastSet component layers := rfl
@[simp] theorem overlay_hostToken : (overlay layers).hostToken = lastSet hostToken layers := rfl

end

/-- Options that come out when neighbouring layers are merged until one is left. -/
inductive Merged : List Options → Options → Prop
  | layer (o : Options) : Merged [o] o
  | merge {xs ys : List Options} {o p : Options} : Merged xs o → Merged ys p →
      Merged (xs ++ ys) (o.merge p)

theorem lastSet_append (option : Options → Option Text) (xs ys : List Options) :
    lastSet option (xs ++ ys) = (lastSet option ys).or (lastSet option xs) := by
  rw [lastSet, List.filterMap_append, List.getLast?_append]
  rfl

theorem lastSet_singleton (option : Options → Option Text) (o : Options) :
    lastSet option [o] = option o := by
  cases h : option o <;> simp [lastSet, h]

theorem overlay_append (xs ys : List Options) :
    overlay (xs ++ ys) = (overlay xs).merge (overlay ys) := by
  simp only [overlay, merge, lastSet_append, List.any_append]

theorem overlay_singleton (o : Options) : overlay [o] = o := by
  simp [overlay, lastSet_singleton]

theorem Merged.eq_overlay {layers : List Options} {o : Options} (h : Merged layers o) :
    o = overlay layers := by
  induction h with
  | layer o => rw [overlay_singleton]
  | merge _ _ iho ihp => rw [overlay_append, ← iho, ← ihp]

theorem Merged.foldl {xs : List Options} {o : Options} (h : Merged xs o) (ys : List Options) :
    Merged (xs ++ ys) (ys.foldl Options.merge o) := by
  induction ys generalizing xs o with
  | nil => rwa [List.append_nil]
  | cons p ys ih =>
      have hnext := ih (.merge h (.layer p))
      rwa [List.append_assoc, List.singleton_append] at hnext

/-- Layers are merged in one way only, from the left or in any groups. -/
theorem merged_iff_foldl {layers : List Options} {o : Options} :
    Merged ({} :: layers) o ↔ o = layers.foldl merge {} := by
  have hfoldl : Merged ({} :: layers) (layers.foldl merge {}) := Merged.foldl (.layer {}) layers
  constructor
  · intro h
    rw [h.eq_overlay, hfoldl.eq_overlay]
  · rintro rfl
    exact hfoldl

theorem foldl_merge (layers : List Options) : layers.foldl merge {} = overlay layers := by
  have hoverlay : overlay ({} :: layers) = overlay layers := by
    simp [overlay, lastSet]
  rw [← hoverlay]
  exact (merged_iff_foldl.2 rfl).eq_overlay

/-! ### Templates -/

/-- What stands for the scope in a template. -/
def placeholder : Text := ['{', 's', 'c', 'o', 'p', 'e', '}']

/-- The token is the template with the scope in the place of every placeholder. -/
def Filled (scope template token : Text) : Prop :=
  ∃ pieces : List Text, (∀ p ∈ pieces, ¬placeholder <:+: p) ∧
    template = placeholder.intercalate pieces ∧ token = scope.intercalate pieces

/-- Text in front of the first piece is in front of all. -/
theorem intercalate_append_cons (sep u p : Text) (ps : List Text) :
    sep.intercalate ((u ++ p) :: ps) = u ++ sep.intercalate (p :: ps) := by
  cases ps with
  | nil => simp
  | cons q qs => simp [List.intercalate_cons_cons]

theorem exists_pieces (scope template : Text) :
    ∃ p ps, (∀ q ∈ p :: ps, ¬placeholder <:+: q) ∧ template = placeholder.intercalate (p :: ps) ∧
      fillTemplate scope template = scope.intercalate (p :: ps) := by
  fun_induction fillTemplate scope template with
  | case1 r ih =>
      obtain ⟨p, ps, hpieces, rfl, hfill⟩ := ih
      refine ⟨[], p :: ps, List.forall_mem_cons.2 ⟨by decide, hpieces⟩, ?_, ?_⟩
      · rw [List.intercalate_cons_cons]
        rfl
      · rw [hfill, List.intercalate_cons_cons]
        rfl
  | case2 c r hno ih =>
      obtain ⟨p, ps, hpieces, rfl, hfill⟩ := ih
      obtain ⟨hp, hps⟩ := List.forall_mem_cons.1 hpieces
      refine ⟨c :: p, ps, List.forall_mem_cons.2 ⟨?_, hps⟩, ?_, ?_⟩
      · rw [List.infix_cons_iff]
        rintro (⟨u, hu⟩ | hinfix)
        · -- the template would start with the placeholder
          obtain ⟨rfl, rfl⟩ := List.cons.inj hu
          refine hno (u ++ placeholder.intercalate ([] :: ps)) rfl ?_
          simpa using intercalate_append_cons placeholder ("scope\x7d".toList ++ u) [] ps
        · exact hp hinfix
      · exact (intercalate_append_cons placeholder [c] p ps).symm
      · rw [hfill]
        exact (intercalate_append_cons scope [c] p ps).symm
  | case3 => exact ⟨[], [], by decide, rfl, rfl⟩

theorem filled_fillTemplate (scope template : Text) :
    Filled scope template (fillTemplate scope template) := by
  obtain ⟨p, ps, hpieces⟩ := exists_pieces scope template
  exact ⟨p :: ps, hpieces⟩

/-! ### What the options stand for -/

def Unset (value : Option Text) : Prop := ∀ t ∈ value, trim t = []

/-- How a context comes from layers. -/
structure Resolves (layers : List Options) (ctx : Context) : Prop where
  scope : ∀ t ∈ lastSet Options.scope layers, trim t ≠ [] → ctx.scope = t
  componentScope : Unset (lastSet Options.scope layers) →
    ∃ t ∈ lastSet component layers, ctx.scope = '_' :: t
  elementToken : Filled ctx.scope
    ((lastSet Options.elementToken layers).getD "[\x7bscope\x7d]".toList) ctx.elementToken
  hostToken : ∀ t ∈ lastSet Options.hostToken layers, Filled ctx.scope t ctx.hostToken
  componentHost : lastSet Options.hostToken layers = none →
    ∀ t ∈ lastSet component layers, trim t ≠ [] → ctx.hostToken = t
  defaultHost : lastSet Options.hostToken layers = none → Unset (lastSet component layers) →
    ctx.hostToken = '[' :: ctx.scope ++ "-host]".toList
  parts : ctx.parts = if ∃ o ∈ layers, o.scopeAllParts = true then Parts.all else {}

theorem present_eq_none_iff {value : Option Text} : present value = none ↔ Unset value := by
  simp [present, Unset, Option.filter_eq_none_iff, trim_eq_nil_iff]

theorem present_of_mem {value : Option Text} {t : Text} (ht : t ∈ value) (hne : trim t ≠ []) :
    present value = some t := by
  rw [present, Option.filter_eq_some_iff]
  rw [Ne, trim_eq_nil_iff] at hne
  exact ⟨ht, by simpa using hne⟩

section
variable {o : Options}

theorem isBlankText_of_resolvedScope {scope : Text} (h : o.resolvedScope = some scope) :
    isBlankText scope = false := by
  rw [resolvedScope, Option.or_eq_some_iff, Option.map_eq_some_iff] at h
  rcases h with h | ⟨_, component, _, rfl⟩
  · have hpresent := (Option.filter_eq_some_iff.1 h).2
    simpa using hpresent
  · rfl

/-- The context of options that name a scope or a component. -/
theorem toContext_of_resolvedScope {scope : Text} (h : o.resolvedScope = some scope) :
    o.toContext = .ok
      { scope
        elementToken := fillTemplate scope (o.elementToken.getD elementTemplate)
        hostToken := o.resolvedHost scope
        parts := if o.scopeAllParts then Parts.all else {} } := by
  simp [toContext, h, Context.ofScope, isBlankText_of_resolvedScope h, Except.map]

theorem resolvedScope_eq_none_iff :
    o.resolvedScope = none ↔ present o.scope = none ∧ present o.component = none := by
  rw [resolvedScope, Option.or_eq_none_iff, Option.map_eq_none_iff]

/-- Options stand for no context just when they name neither a scope nor a component. -/
theorem toContext_eq_error_iff {e : ContextError} :
    o.toContext = .error e ↔ present o.scope = none ∧ present o.component = none := by
  rw [← resolvedScope_eq_none_iff]
  cases h : o.resolvedScope with
  | none => simp [toContext, h]
  | some scope => simp [toContext_of_resolvedScope h]

end

section
variable {layers : List Options}

theorem scope_of_resolvedScope {scope : Text} (h : (overlay layers).resolvedScope = some scope) :
    (∀ t ∈ lastSet Options.scope layers, trim t ≠ [] → scope = t) ∧
      (Unset (lastSet Options.scope layers) → ∃ t ∈ lastSet component layers, scope = '_' :: t) := by
  rw [resolvedScope] at h
  refine ⟨fun t ht hne => ?_, fun hunset => ?_⟩
  · rw [overlay_scope, present_of_mem ht hne, Option.some_or] at h
    exact (Option.some.inj h).symm
  · rw [overlay_scope, present_eq_none_iff.2 hunset, Option.none_or, Option.map_eq_some_iff] at h
    obtain ⟨t, ht, rfl⟩ := h
    exact ⟨t, (Option.filter_eq_some_iff.1 ht).1, rfl⟩

theorem resolves_of_resolvedScope {scope : Text}
    (h : (overlay layers).resolvedScope = some scope) :
    ∃ ctx, (overlay layers).toContext = .ok ctx ∧ Resolves layers ctx := by
  obtain ⟨hscope, hcomponent⟩ := scope_of_resolvedScope h
  refine ⟨_, toContext_of_resolvedScope h, hscope, hcomponent, ?_, ?_, ?_, ?_, ?_⟩
  · exact filled_fillTemplate scope _
  · intro t ht
    rw [resolvedHost, overlay_hostToken, Option.mem_def.1 ht]
    exact filled_fillTemplate scope t
  · intro hnone t ht hne
    rw [resolvedHost, overlay_hostToken, hnone, overlay_component, present_of_mem ht hne]
  · intro hnone hunset
    rw [resolvedHost, overlay_hostToken, hnone, overlay_component, present_eq_none_iff.2 hunset]
    rfl
  · simp [overlay]

end

/-- With nothing but a scope both templates give the default tokens. -/
theorem toContext_scope (s : Text) :
    ({ scope := some s } : Options).toContext = Context.ofScope s := by
  by_cases hblank : isBlankText s = true
  · have hnone : present (some s) = none := by simp [present, hblank]
    rw [Context.ofScope, if_pos hblank]
    exact toContext_eq_error_iff.2 ⟨hnone, rfl⟩
  · have hscope : ({ scope := some s } : Options).resolvedScope = some s := by
      simp [resolvedScope, present, hblank]
    rw [toContext_of_resolvedScope hscope, Context.ofScope, if_neg hblank]
    rfl

/-- Layers resolve to the values set last, however they are merged. With nothing but a scope the
context is that of the scope. -/
theorem toContext_layers (layers : List Options) :
    let merged := layers.foldl merge {}
    let Missing := Unset (lastSet scope layers) ∧ Unset (lastSet component layers)
    (∀ o, Merged ({} :: layers) o ↔ o = merged) ∧
      (merged.toContext = .error .missingScope ↔ Missing) ∧
      (¬Missing → ∃ ctx, merged.toContext = .ok ctx ∧ Resolves layers ctx) ∧
      ∀ s, ({ scope := some s } : Options).toContext = Context.ofScope s := by
  intro merged Missing
  have hmerged : merged = overlay layers := foldl_merge layers
  have hmissing : present merged.scope = none ∧ present merged.component = none ↔ Missing := by
    rw [hmerged, overlay_scope, overlay_component, present_eq_none_iff, present_eq_none_iff]
  refine ⟨fun o => merged_iff_foldl, toContext_eq_error_iff.trans hmissing, ?_, toContext_scope⟩
  intro hset
  have hne : merged.resolvedScope ≠ none := fun hnone =>
    hset (hmissing.1 (resolvedScope_eq_none_iff.1 hnone))
  obtain ⟨scope, hscope⟩ := Option.ne_none_iff_exists'.1 hne
  rw [hmerged] at hscope ⊢
  exact resolves_of_resolvedScope hscope

/-- A blank scope replaces the one of an earlier layer, and the host token is filled with the scope
that comes from the component. -/
theorem toContext_layers_blank :
    let layers : List Options :=
      [{ scope := some "a".toList, hostToken := some "<\x7bscope\x7d|\x7bscope\x7d>".toList },
        { scope := some "\u00a0".toList, component := some "c".toList },
        { scopeAllParts := true }]
    ¬(Unset (lastSet scope layers) ∧ Unset (lastSet component layers)) ∧
      (layers.foldl merge {}).toContext =
        .ok ⟨"_c".toList, "[_c]".toList, "<_c|_c>".toList, Parts.all⟩ ∧
      ∃ ctx, (layers.foldl merge {}).toContext = .ok ctx ∧ Resolves layers ctx := by
  intro layers
  have hset : ¬(Unset (lastSet scope layers) ∧ Unset (lastSet component layers)) := by
    rintro ⟨-, hunset⟩
    exact absurd (hunset "c".toList (by decide)) (by decide)
  exact ⟨hset, by decide +kernel, (toContext_layers layers).2.2.1 hset⟩

end StyleScope.Options
