import StyleScope.Proofs.Animation.Values
import StyleScope.Proofs.Stylesheet.RoundTrip
import StyleScope.Proofs.Stylesheet.Walk
import StyleScope.Scope.Sheet

/-! # What scoping may touch

Scoping walks over a stylesheet three times: for its selectors, for the names of its keyframes, and
for the animations that refer to them. The three walks amount to one pass, whose table of names is
that of the sheet as it was given (`scopeSheet_eq`). So it is enough to look at what this pass does
to a single statement: `ScopedNode` lists all it may change, and a mutual induction over statements
and lists of statements carries it over the tree.

A sheet with nothing to scope is left as it is, and with the round trip of reading so is its text.
-/
namespace StyleScope.Scope
open Text Stylesheet Animation

/-- The pass that scoping amounts to, with the names of keyframes in a table. -/
def scopingPass (ctx : Context) (table : Table) : Pass where
  rule := scopeRule ctx
  atRule := renameKeyframes ctx.scope
  declaration := renameDeclaration table

@[simp] theorem scopingPass_rule (ctx : Context) (table : Table) :
    (scopingPass ctx table).rule = scopeRule ctx := rfl
@[simp] theorem scopingPass_atRule (ctx : Context) (table : Table) :
    (scopingPass ctx table).atRule = renameKeyframes ctx.scope := rfl
@[simp] theorem scopingPass_declaration (ctx : Context) (table : Table) :
    (scopingPass ctx table).declaration = renameDeclaration table := rfl

def keyframesTable (ctx : Context) (s : Sheet) : Table :=
  tableOf ctx.scope (declaredNames s.events)

theorem keepsKeyframes_scopeRule (ctx : Context) : Pass.KeepsKeyframes { rule := scopeRule ctx } := by
  intro r
  exact congrArg AtRule.isKeyframes (id_eq r)

theorem declaredNames_scopeSelectors (ctx : Context) (s : Sheet) :
    declaredNames (scopeSelectors ctx s).events = declaredNames s.events := by
  rw [scopeSelectors, Sheet.events_map (keepsKeyframes_scopeRule ctx), declaredNames,
    declaredNames, List.filterMap_map]
  congr 1
  funext e
  cases e with
  | rule r inKeyframes => rfl
  | atRule r => rfl
  | declaration d => rfl

theorem scopeSheet_eq (ctx : Context) (s : Sheet) :
    scopeSheet ctx s = (s.map (scopingPass ctx (keyframesTable ctx s)),
      { rules := ruleCount s, animations := keyframesTable ctx s }) := by
  unfold scopeSheet renameSheet
  dsimp only
  rw [declaredNames_scopeSelectors, scopeSelectors, Sheet.map_map (keepsKeyframes_scopeRule ctx)]
  rfl

mutual
/-- What scoping may make of a statement below some at-rules. The shape and every field stay, but
for the selector of a rule with no keyframes around it, the parameters of keyframes that have some,
and the value of an animation. -/
inductive ScopedNode (ctx : Context) : List AtRule → Node → Node → Prop
  | rule {around : List AtRule} {nodes nodes' : List Node} (r : Rule) :
      ScopedNodes ctx around nodes nodes' →
      ScopedNode ctx around (.rule r nodes)
        (.rule { r with
          selector := if underKeyframes around then r.selector else scopeList ctx r.selector } nodes')
  | atBlock {around : List AtRule} {nodes nodes' : List Node} {r : AtRule} {params : Text} :
      (params ≠ r.params → r.isKeyframes = true ∧ r.params ≠ []) →
      ScopedNodes ctx (r :: around) nodes nodes' →
      ScopedNode ctx around (.atBlock r nodes) (.atBlock { r with params } nodes')
  | atStatement {around : List AtRule} {r : AtRule} {params : Text} :
      (params ≠ r.params → r.isKeyframes = true ∧ r.params ≠ []) →
      ScopedNode ctx around (.atStatement r) (.atStatement { r with params })
  | declaration {around : List AtRule} {d : Declaration} {value : Text} :
      (value ≠ d.value →
        d.plainProp = "animation".toList ∨ d.plainProp = "animation-name".toList) →
      ScopedNode ctx around (.declaration d) (.declaration { d with value })
  | comment {around : List AtRule} (c : Comment) : ScopedNode ctx around (.comment c) (.comment c)
  | raw {around : List AtRule} (r : Raw) : ScopedNode ctx around (.raw r) (.raw r)

/-- What scoping may make of a list of statements: of each of them in its place. -/
inductive ScopedNodes (ctx : Context) : List AtRule → List Node → List Node → Prop
  | nil {around : List AtRule} : ScopedNodes ctx around [] []
  | cons {around : List AtRule} {n m : Node} {ns ms : List Node} :
      ScopedNode ctx around n m → ScopedNodes ctx around ns ms →
      ScopedNodes ctx around (n :: ns) (m :: ms)
end

theorem scopeRule_eq (ctx : Context) (r : Rule) (inKeyframes : Bool) :
    scopeRule ctx r inKeyframes =
      { r with selector := if inKeyframes then r.selector else scopeList ctx r.selector } := by
  cases inKeyframes with
  | false => rfl
  | true => rfl

theorem definesKeyframes_iff (r : AtRule) :
    definesKeyframes r = true ↔ r.isKeyframes = true ∧ r.params ≠ [] := by
  simp [definesKeyframes]

theorem renameKeyframes_params (scope : Text) (r : AtRule) :
    ∃ params, renameKeyframes scope r = { r with params } ∧
      (params ≠ r.params → r.isKeyframes = true ∧ r.params ≠ []) := by
  unfold renameKeyframes
  split
  · next h => exact ⟨scopedParams r.params scope, rfl, fun _ => (definesKeyframes_iff r).1 h⟩
  · exact ⟨r.params, rfl, fun h => absurd rfl h⟩

theorem renameDeclaration_value (table : Table) (d : Declaration) :
    ∃ value, renameDeclaration table d = { d with value } ∧
      (value ≠ d.value →
        d.plainProp = "animation".toList ∨ d.plainProp = "animation-name".toList) := by
  unfold renameDeclaration
  split
  · next h => exact ⟨_, rfl, fun _ => .inr h⟩
  · split
    · next h => exact ⟨_, rfl, fun _ => .inl h⟩
    · exact ⟨d.value, rfl, fun h => absurd rfl h⟩

mutual
theorem scopedNode_map (ctx : Context) (table : Table) (around : List AtRule) : ∀ n : Node,
    ScopedNode ctx around n (n.map (scopingPass ctx table) (underKeyframes around))
  | .rule r ns => by
      rw [Node.map, scopingPass_rule, scopeRule_eq]
      exact .rule r (scopedNodes_mapNodes ctx table around ns)
  | .atBlock r ns => by
      obtain ⟨params, hr, hp⟩ := renameKeyframes_params ctx.scope r
      rw [Node.map, ← underKeyframes_cons, scopingPass_atRule, hr]
      exact .atBlock hp (scopedNodes_mapNodes ctx table (r :: around) ns)
  | .atStatement r => by
      obtain ⟨params, hr, hp⟩ := renameKeyframes_params ctx.scope r
      rw [Node.map, scopingPass_atRule, hr]
      exact .atStatement hp
  | .declaration d => by
      obtain ⟨value, hd, hv⟩ := renameDeclaration_value table d
      rw [Node.map, scopingPass_declaration, hd]
      exact .declaration hv
  | .comment c => by
      rw [Node.map]
      exact .comment c
  | .raw r => by
      rw [Node.map]
      exact .raw r

theorem scopedNodes_mapNodes (ctx : Context) (table : Table) (around : List AtRule) :
    ∀ ns : List Node,
      ScopedNodes ctx around ns (mapNodes (scopingPass ctx table) (underKeyframes around) ns)
  | [] => .nil
  | n :: ns => .cons (scopedNode_map ctx table around n) (scopedNodes_mapNodes ctx table around ns)
end

theorem ruleCount_eq (s : Sheet) : ruleCount s = s.freeRules.length := by
  have hcount : ruleCount s = (s.events.filterMap Event.rule?).countP fun p => !p.2 := by
    rw [ruleCount, List.countP_filterMap]
    congr 1
    funext e
    cases e with
    | rule r inKeyframes => rfl
    | atRule r => rfl
    | declaration d => rfl
  rw [hcount, Sheet.rules_events, List.countP_map, Sheet.freeRules, List.length_map,
    List.countP_eq_length_filter]
  rfl

theorem underKeyframes_of_freeRules {s : Sheet} (h : s.freeRules = []) {r : Rule}
    {inKeyframes : Bool} (hr : Event.rule r inKeyframes ∈ s.events) : inKeyframes = true := by
  have hmem : (r, inKeyframes) ∈ s.events.filterMap Event.rule? :=
    List.mem_filterMap.2 ⟨_, hr, rfl⟩
  rw [Sheet.rules_events] at hmem
  obtain ⟨⟨around, r'⟩, hp, he⟩ := List.mem_map.1 hmem
  obtain ⟨-, rfl⟩ := Prod.mk.inj he
  have hfree := List.filter_eq_nil_iff.1 (List.map_eq_nil_iff.1 h) _ hp
  simpa using hfree

/-- No name is declared just when no keyframes have parameters. -/
theorem declaredNames_eq_nil_iff (events : List Event) :
    declaredNames events = [] ↔
      ∀ r, Event.atRule r ∈ events → ¬(r.isKeyframes = true ∧ r.params ≠ []) := by
  rw [declaredNames, List.filterMap_eq_nil_iff]
  constructor
  · intro h r hr hk
    have hname := h _ hr
    rw [← definesKeyframes_iff] at hk
    simp [hk] at hname
  · intro h e he
    cases e with
    | rule r inKeyframes => rfl
    | atRule r =>
        have hk := h r he
        rw [← definesKeyframes_iff] at hk
        simp [hk]
    | declaration d => rfl

theorem keyframesTable_eq_empty (ctx : Context) {s : Sheet} (h : declaredNames s.events = []) :
    keyframesTable ctx s = {} := by
  rw [keyframesTable, h]
  rfl

/-- A sheet without rules free of keyframes and without keyframes that have parameters stays. -/
theorem scopeSheet_eq_self (ctx : Context) {s : Sheet} (hrules : s.freeRules = [])
    (hkeyframes : ∀ r, Event.atRule r ∈ s.events → ¬(r.isKeyframes = true ∧ r.params ≠ [])) :
    (scopeSheet ctx s).1 = s := by
  have htable := keyframesTable_eq_empty ctx ((declaredNames_eq_nil_iff s.events).2 hkeyframes)
  rw [scopeSheet_eq, htable]
  apply Sheet.map_eq_self
  intro e he
  cases e with
  | rule r inKeyframes =>
      obtain rfl := underKeyframes_of_freeRules hrules he
      rfl
  | atRule r =>
      have hr := hkeyframes r he
      rw [← definesKeyframes_iff] at hr
      rw [Pass.event, scopingPass_atRule, renameKeyframes, if_neg hr]
  | declaration d => rw [Pass.event, scopingPass_declaration, renameDeclaration_empty]

theorem scopeSheet_frame (ctx : Context) (s : Sheet) :
    ((scopeSheet ctx s).1.after = s.after ∧
        ScopedNodes ctx [] s.nodes (scopeSheet ctx s).1.nodes) ∧
      (scopeSheet ctx s).2.rules = s.freeRules.length ∧
      ∀ css, parse? css = some s → s.freeRules = [] →
        (∀ r, Event.atRule r ∈ s.events → ¬(r.isKeyframes = true ∧ r.params ≠ [])) →
        scopeText? ctx css = some css := by
  refine ⟨?_, ?_, ?_⟩
  · rw [scopeSheet_eq]
    exact ⟨rfl, scopedNodes_mapNodes ctx _ [] s.nodes⟩
  · rw [scopeSheet_eq]
    exact ruleCount_eq s
  · intro css hcss hrules hkeyframes
    rw [scopeText?, hcss, Option.map_some, scopeSheet_eq_self ctx hrules hkeyframes,
      text_of_parse? hcss]

/-- Keyframes without a name are no reason to change the animation of a step in them. -/
theorem scopeSheet_frame_unnamed :
    let ctx : Context := ⟨"s".toList, "[s]".toList, "[s-host]".toList, {}⟩
    let css : Text := "/* a */@y ;@keyframes \x7bfrom\x7banimation:x 1s".toList
    ∃ s, parse? css = some s ∧ s.freeRules = [] ∧ (scopeSheet ctx s).2.rules = 0 ∧
      scopeText? ctx css = some css := by
  intro ctx css
  obtain ⟨s, hs⟩ : ∃ s, parse? css = some s := Option.isSome_iff_exists.1 (by decide +kernel)
  have hnone : (parse? css).map (fun s => (s.freeRules, declaredNames s.events)) =
      some ([], []) := by decide +kernel
  rw [hs, Option.map_some, Option.some.injEq, Prod.mk.injEq] at hnone
  obtain ⟨hrules, hnames⟩ := hnone
  obtain ⟨-, hcount, htext⟩ := scopeSheet_frame ctx s
  refine ⟨s, hs, hrules, by rw [hcount, hrules, List.length_nil], ?_⟩
  exact htext css hs hrules ((declaredNames_eq_nil_iff s.events).1 hnames)

end StyleScope.Scope
