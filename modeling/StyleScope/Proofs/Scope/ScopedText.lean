import StyleScope.Proofs.Scope.Heads
import StyleScope.Proofs.Stylesheet.Canonical

/-! # The scoped text and the scoped tree

A stylesheet is scoped as a tree or as a text, and the text is that of the tree. Whoever reads the
text again expects the tree. The chunks of the scoped tree are those of the sheet, each of them
scoped (`built_scoped`), so by the run over scoped chunks the tree comes back if every scoped
selector is read as a selector (`parse?_scopeSheet`). It does not come back otherwise, for in a
sheet that was read every selector is read as one (`isHead_of_mem_events`).
-/
namespace StyleScope.Stylesheet
open Text

/-- Written in front of an empty block, the selector and the blanks behind it are read as those of
one rule. -/
def ReadsAsRule (selector between : Text) : Prop :=
  parse? (selector ++ between ++ ['{', '}']) =
    some { nodes := [.rule { before := [], selector, between, closed := true } []] }

instance (selector between : Text) : Decidable (ReadsAsRule selector between) :=
  inferInstanceAs (Decidable (_ = _))

def Block.map (p : Pass) (inKeyframes : Bool) (b : Block) : Block :=
  { b with nodes := mapNodes p inKeyframes b.nodes }

namespace Head

def map (p : Pass) (inKeyframes : Bool) : Head → Head
  | rule r => rule (p.rule r inKeyframes)
  | atRule r => atRule (p.atRule r)

/-- The flag with which the statements behind the head are met. -/
def flag (inKeyframes : Bool) : Head → Bool
  | rule _ => inKeyframes
  | atRule r => inKeyframes || r.isKeyframes

def event (inKeyframes : Bool) (b : Block) : Head → Event
  | rule r => .rule { r with after := b.after, closed := b.closed } inKeyframes
  | atRule r => .atRule { r with after := b.after, closed := b.closed }

theorem events_withBlock (h : Head) (k : Bool) (b : Block) :
    (h.withBlock b).events k = h.event k b :: nodesEvents (h.flag k) b.nodes := by
  cases h with
  | rule r => rfl
  | atRule r => rfl

end Head

theorem Node.rule_notMem_events {n : Node} (h : n.blocks = []) {k k' : Bool} {r : Rule} :
    .rule r k' ∉ n.events k := by
  cases n with
  | rule => exact absurd h (by simp [Node.blocks])
  | atBlock => exact absurd h (by simp [Node.blocks])
  | atStatement => simp [Node.events]
  | declaration => simp [Node.events]
  | comment => simp [Node.events]
  | raw => simp [Node.events]

theorem Run.blocks_of_node {t rest : Text} {cs : List Chunk} (h : Run t cs rest) (n : Node)
    (hn : .node n ∈ cs) : n.blocks = [] :=
  (h.canonical (.node n) hn).2

/-- The rules of a block stand at the head of chunks. -/
theorem Block.Built.exists_openRule {p q : List Chunk × Text} {b : Block} (h : Built p b q)
    (hleaf : ∀ n, .node n ∈ p.1 → n.blocks = []) {k k' : Bool} {r : Rule}
    (hr : .rule r k' ∈ nodesEvents k b.nodes) :
    ∃ r', .openRule r' ∈ p.1 ∧ r'.selector = r.selector ∧ r'.between = r.between := by
  induction h generalizing k with
  | done => exact absurd hr (by simp [nodesEvents])
  | close => exact absurd hr (by simp [nodesEvents])
  | stray _ _ ih =>
      obtain ⟨r', hr', he⟩ := ih (fun n hn => hleaf n (List.mem_cons_of_mem _ hn)) hr
      exact ⟨r', List.mem_cons_of_mem _ hr', he⟩
  | @node n _ _ _ _ _ ih =>
      rw [Block.cons_nodes, nodesEvents, List.mem_append] at hr
      rcases hr with hr | hr
      · exact absurd hr (Node.rule_notMem_events (hleaf n List.mem_cons_self))
      · obtain ⟨r', hr', he⟩ := ih (fun n hn => hleaf n (List.mem_cons_of_mem _ hn)) hr
        exact ⟨r', List.mem_cons_of_mem _ hr', he⟩
  | @block head _ cs inner _ _ _ _ hi _ ihinner ih =>
      have hinner (n : Node) (hn : .node n ∈ cs) := hleaf n (List.mem_cons_of_mem _ hn)
      rw [Block.cons_nodes, nodesEvents, List.mem_append] at hr
      rcases hr with hr | hr
      · rw [head.events_withBlock, List.mem_cons] at hr
        rcases hr with hr | hr
        · cases head with
          | atRule => exact absurd hr (by simp [Head.event])
          | rule r₀ =>
              obtain ⟨rfl, -⟩ : _ ∧ _ := by simpa [Head.event] using hr
              exact ⟨r₀, List.mem_cons_self, rfl, rfl⟩
        · obtain ⟨r', hr', he⟩ := ihinner hinner hr
          exact ⟨r', List.mem_cons_of_mem _ hr', he⟩
      · obtain ⟨r', hr', he⟩ := ih (fun n hn => hinner n (hi.suffix.subset hn)) hr
        exact ⟨r', List.mem_cons_of_mem _ (hi.suffix.subset hr'), he⟩

theorem Run.isHead {t rest : Text} {cs : List Chunk} (h : Run t cs rest) {r : Rule}
    (hr : .openRule r ∈ cs) : IsHead r.selector r.between := by
  induction h with
  | nil => exact absurd hr (by simp)
  | @cons t u _ _ _ hread _ ih =>
      rcases List.mem_cons.1 hr with rfl | hr
      · have hspace := forall_head?_dropWhile isSpace t
        generalize t.dropWhile isSpace = t' at hread hspace
        cases hread with
        | openRule h =>
            refine ⟨?_, h.congr []⟩
            intro c hc
            apply hspace
            rw [List.head?_append, Option.mem_def.1 hc]
            rfl
      · exact ih hr

/-- In a sheet that was read, whatever stands for the selector of a rule is read as one. -/
theorem isHead_of_mem_events {t : Text} {s : Sheet} (h : parse? t = some s) {r : Rule} {k : Bool}
    (hr : .rule r k ∈ s.events) : IsHead r.selector r.between := by
  obtain ⟨⟨cs, space⟩, hchunks, hbuilt⟩ := parse?_eq_some_iff.1 h
  obtain ⟨hrun, -⟩ := chunks?_eq_some_iff.1 hchunks
  obtain ⟨r', hr', hselector, hbetween⟩ := hbuilt.exists_openRule hrun.blocks_of_node hr
  rw [← hselector, ← hbetween]
  exact hrun.isHead hr'

theorem readsAsRule_iff {selector between : Text} :
    ReadsAsRule selector between ↔ IsHead selector between := by
  constructor
  · intro h
    exact isHead_of_mem_events h List.mem_cons_self
  · intro h
    have hspace : ((selector ++ between) ++ ['{', '}']).head?.any isSpace = false := by
      cases hc : ((selector ++ between) ++ ['{', '}']).head? with
      | none => rfl
      | some c => exact h.noSpace_append ['}'] c hc
    have hread : Chunk.Read [] (selector ++ between ++ ['{', '}'])
        (.openRule { before := [], selector, between }) ['}'] := .openRule (h.statement.congr _)
    have hrun : Run (selector ++ between ++ ['{', '}'])
        [.openRule { before := [], selector, between }, .close []] [] := by
      have hclose : Run ['}'] [.close []] [] := .cons .close .nil
      refine .cons ?_ hclose
      have htake := takeWhile_append_of_all (u := []) rfl hspace
      have hdrop := dropWhile_append_of_all (u := []) rfl hspace
      rw [List.nil_append] at htake hdrop
      rwa [htake, hdrop]
    apply parse?_eq_some_iff.2
    refine ⟨_, chunks?_eq_some_iff.2 ⟨hrun, rfl⟩, ?_⟩
    exact .block (h := .rule { before := [], selector, between }) rfl .close .done

theorem Sheet.mem_freeRules_iff {s : Sheet} {r : Rule} :
    r ∈ s.freeRules ↔ .rule r false ∈ s.events := by
  have hevent : .rule r false ∈ s.events ↔ (r, false) ∈ s.events.filterMap Event.rule? := by
    rw [List.mem_filterMap]
    constructor
    · intro h
      exact ⟨_, h, rfl⟩
    · rintro ⟨e, he, hrule⟩
      cases e with
      | rule r' k =>
          obtain ⟨rfl, rfl⟩ : r' = r ∧ k = false := by simpa [Event.rule?] using hrule
          exact he
      | atRule => exact absurd hrule (by simp [Event.rule?])
      | declaration => exact absurd hrule (by simp [Event.rule?])
  rw [hevent, s.rules_events]
  simp [Sheet.freeRules]

theorem text_of_built {cs : List Chunk} {space : Text} {s : Sheet}
    (h : Block.Built (cs, space) (Block.ofSheet s) ([], [])) :
    s.text = cs.flatMap Chunk.text ++ space := by
  have hsheet : (cs.foldl Growth.add {}).finish space = s := (Growth.resume_of_built h).2 rfl []
  rw [← hsheet, Growth.text_finish, Growth.text_foldl_add]
  rfl

end StyleScope.Stylesheet

namespace StyleScope.Scope
open Text Stylesheet Animation

/-- A pass scopes a head in the same way with its block and without. -/
theorem map_withBlock (ctx : Context) (table : Table) (head : Head) (k : Bool) (b : Block) :
    (head.withBlock b).map (scopingPass ctx table) k =
      (head.map (scopingPass ctx table) k).withBlock
        (b.map (scopingPass ctx table) (head.flag k)) := by
  cases head with
  | rule r => cases k <;> rfl
  | atRule r =>
      have hatRule : renameKeyframes ctx.scope { r with after := b.after, closed := b.closed } =
          { renameKeyframes ctx.scope r with after := b.after, closed := b.closed } := by
        unfold renameKeyframes
        split
        · next h => rw [if_pos (show definesKeyframes r = true from h)]
        · next h => rw [if_neg (show ¬definesKeyframes r = true from h)]
      rw [Head.withBlock, Node.map, scopingPass_atRule, hatRule]
      rfl

section
variable (ctx : Context) {names : List Text} (hnames : ∀ n ∈ names, Blunt n.getLast?)
include hnames

theorem lengthened_renameKeyframes {r : AtRule}
    (hr : definesKeyframes r = true → paramsName r.params ∈ names) :
    ∃ params, renameKeyframes ctx.scope r = { r with params } ∧
      Lengthened (nameSuffix ctx.scope) r.params params := by
  unfold renameKeyframes
  split
  · next h =>
    refine ⟨_, rfl, ?_⟩
    exact lengthened_params ((definesKeyframes_iff r).1 h).2 (hnames _ (hr h))
  · exact ⟨_, rfl, .refl _ _⟩

theorem scopedChunk_head (head : Head) (b : Block) (k : Bool)
    (hrule : ∀ r, head.event k b = .rule r false → IsHead (scopeList ctx r.selector) r.between)
    (hatRule : ∀ r, head.event k b = .atRule r → definesKeyframes r = true →
      paramsName r.params ∈ names) :
    ScopedChunk ctx head.chunk (head.map (scopingPass ctx (tableOf ctx.scope names)) k).chunk := by
  cases head with
  | rule r =>
      cases k with
      | false => exact .rule (hrule { r with after := b.after, closed := b.closed } rfl)
      | true => exact .same _
  | atRule r =>
      obtain ⟨params, he, hparams⟩ := lengthened_renameKeyframes ctx (r := r) hnames
        (hatRule { r with after := b.after, closed := b.closed } rfl)
      rw [Head.map, scopingPass_atRule, he]
      exact .openAt hparams

theorem scopedChunk_node {n : Node} (hn : n.blocks = []) (k : Bool)
    (hatRule : ∀ r, .atRule r ∈ n.events k → definesKeyframes r = true →
      paramsName r.params ∈ names) :
    ScopedChunk ctx (.node n) (.node (n.map (scopingPass ctx (tableOf ctx.scope names)) k)) := by
  cases n with
  | rule => exact absurd hn (by simp [Node.blocks])
  | atBlock => exact absurd hn (by simp [Node.blocks])
  | atStatement r =>
      obtain ⟨params, he, hparams⟩ :=
        lengthened_renameKeyframes ctx hnames (hatRule r List.mem_cons_self)
      rw [Node.map, scopingPass_atRule, he]
      exact .atStatement hparams
  | declaration d =>
      obtain ⟨value, he, hvalue⟩ := renameDeclaration_value (tableOf ctx.scope names) d
      have hlong : Lengthened (nameSuffix ctx.scope) d.value _ := lengthened_value hnames d
      rw [he] at hlong
      rw [Node.map, scopingPass_declaration, he]
      by_cases hsame : value = d.value
      · rw [hsame]
        exact .same _
      · refine .declaration ?_ hlong
        rcases hvalue hsame with hprop | hprop
        · rw [hprop]
          decide
        · rw [hprop]
          decide
  | comment => exact .same _
  | raw => exact .same _

/-- The chunks of a scoped block are those of the block, each of them scoped. -/
theorem built_scoped {p q : List Chunk × Text} {b : Block} (h : b.Built p q) (k : Bool)
    (hleaf : ∀ n, .node n ∈ p.1 → n.blocks = [])
    (hrules : ∀ r, .rule r false ∈ nodesEvents k b.nodes →
      IsHead (scopeList ctx r.selector) r.between)
    (hatRules : ∀ r, .atRule r ∈ nodesEvents k b.nodes → definesKeyframes r = true →
      paramsName r.params ∈ names)
    {ds : List Chunk} (hds : List.Forall₂ (ScopedChunk ctx) q.1 ds) :
    ∃ cs, List.Forall₂ (ScopedChunk ctx) p.1 cs ∧
      (b.map (scopingPass ctx (tableOf ctx.scope names)) k).Built (cs, p.2) (ds, q.2) := by
  induction h generalizing k ds with
  | done =>
      obtain rfl := List.forall₂_nil_left_iff.1 hds
      exact ⟨[], .nil, .done⟩
  | close => exact ⟨_, .cons (.same _) hds, .close⟩
  | @stray before _ _ b _ hb _ ih =>
      obtain ⟨cs, hcs, hbuilt⟩ :=
        ih k (fun n hn => hleaf n (List.mem_cons_of_mem _ hn)) hrules hatRules hds
      have hmap : (b.map (scopingPass ctx (tableOf ctx.scope names)) k).nested = false := hb
      exact ⟨_, .cons (.same _) hcs, .stray hmap hbuilt⟩
  | @node n _ _ b _ _ ih =>
      simp only [Block.cons_nodes, nodesEvents, List.mem_append] at hrules hatRules
      obtain ⟨cs, hcs, hbuilt⟩ := ih k (fun n hn => hleaf n (List.mem_cons_of_mem _ hn))
        (fun r hr => hrules r (.inr hr)) (fun r hr => hatRules r (.inr hr)) hds
      have hn := scopedChunk_node ctx hnames (hleaf n List.mem_cons_self) k
        fun r hr => hatRules r (.inl hr)
      exact ⟨_, .cons hn hcs, .node hbuilt⟩
  | @block head _ cs inner b _ _ hinner hi _ ihinner ih =>
      have hcs (n : Node) (hn : .node n ∈ cs) := hleaf n (List.mem_cons_of_mem _ hn)
      simp only [Block.cons_nodes, nodesEvents, head.events_withBlock, List.mem_append,
        List.mem_cons] at hrules hatRules
      -- the block behind the closing brace comes first: its chunks are what the inner block leaves
      obtain ⟨ds', hds', hbuilt⟩ := ih k (fun n hn => hcs n (hi.suffix.subset hn))
        (fun r hr => hrules r (.inr hr)) (fun r hr => hatRules r (.inr hr)) hds
      obtain ⟨cs', hcs', hbuiltInner⟩ := ihinner (head.flag k) hcs
        (fun r hr => hrules r (.inl (.inr hr))) (fun r hr => hatRules r (.inl (.inr hr))) hds'
      have hhead := scopedChunk_head ctx hnames head inner k
        (fun r hr => hrules r (.inl (.inl hr.symm))) fun r hr => hatRules r (.inl (.inl hr.symm))
      refine ⟨_, .cons hhead hcs', ?_⟩
      have hnested : (inner.map (scopingPass ctx (tableOf ctx.scope names))
          (head.flag k)).nested = true := hinner
      have hblock := Block.Built.block hnested hbuiltInner hbuilt
        (h := head.map (scopingPass ctx (tableOf ctx.scope names)) k)
      rw [← map_withBlock] at hblock
      exact hblock

end

theorem keepsKeyframes_scopingPass (ctx : Context) (table : Table) :
    (scopingPass ctx table).KeepsKeyframes := by
  intro r
  obtain ⟨params, he, -⟩ := renameKeyframes_params ctx.scope r
  rw [scopingPass_atRule, he]
  rfl

/-- The selectors of a scoped sheet that is read back are read as selectors. -/
theorem isHead_of_parse?_scopeSheet {ctx : Context} {s : Sheet}
    (h : parse? (scopeSheet ctx s).1.text = some (scopeSheet ctx s).1) {r : Rule}
    (hr : r ∈ s.freeRules) : IsHead (scopeList ctx r.selector) r.between := by
  have hevent : .rule (scopeRule ctx r false) false ∈ (scopeSheet ctx s).1.events := by
    rw [scopeSheet_eq, Sheet.events_map (keepsKeyframes_scopingPass ctx _)]
    exact List.mem_map_of_mem (Sheet.mem_freeRules_iff.1 hr)
  exact isHead_of_mem_events h hevent

/-- The text of a scoped sheet is read as that sheet, if its selectors are read as selectors. -/
theorem parse?_scopeSheet {ctx : Context} {css : Text} {s : Sheet} (hparse : parse? css = some s)
    (hne : ctx.scope ≠ []) (hscope : ctx.scope.all isScopeChar = true)
    (hnames : ∀ n ∈ declaredNames s.events, Blunt n.getLast?)
    (hrules : ∀ r ∈ s.freeRules, IsHead (scopeList ctx r.selector) r.between) :
    parse? (scopeSheet ctx s).1.text = some (scopeSheet ctx s).1 := by
  obtain ⟨⟨cs, space⟩, hchunks, hbuilt⟩ := parse?_eq_some_iff.1 hparse
  obtain ⟨hrun, hspace⟩ := chunks?_eq_some_iff.1 hchunks
  have hatRules (r : AtRule) (hr : .atRule r ∈ s.events) (hdef : definesKeyframes r = true) :
      paramsName r.params ∈ declaredNames s.events := by
    rw [declaredNames, List.mem_filterMap]
    exact ⟨.atRule r, hr, if_pos hdef⟩
  obtain ⟨cs', hcs, hbuilt'⟩ := built_scoped ctx hnames hbuilt false hrun.blocks_of_node
    (fun r hr => hrules r (Sheet.mem_freeRules_iff.2 hr)) hatRules .nil
  have hsheet : Block.Built (cs', space) (Block.ofSheet (scopeSheet ctx s).1) ([], []) := by
    rw [scopeSheet_eq]
    exact hbuilt'
  rw [text_of_built hsheet]
  apply parse?_eq_some_iff.2
  refine ⟨(cs', space), chunks?_eq_some_iff.2 ⟨?_, hspace⟩, hsheet⟩
  exact (run_scopedText hne hscope hrun hcs).1

/-- The scoped text is read as the scoped tree just when each scoped selector is read as a selector
on its own, and so it is if the selectors are harmless. -/
theorem parse?_scopeText? {scope css : Text} {ctx : Context} {s : Sheet}
    (hctx : Context.ofScope scope = .ok ctx) (hscope : scope.all isScopeChar = true)
    (hparse : parse? css = some s) (hnames : ∀ n ∈ declaredNames s.events, Blunt n.getLast?) :
    ∃ text, scopeText? ctx css = some text ∧
      (parse? text = some (scopeSheet ctx s).1 ↔
        ∀ r ∈ s.freeRules, ReadsAsRule (scopeList ctx r.selector) r.between) ∧
      ((∀ r ∈ s.freeRules, HarmlessList r.selector) →
        parse? text = some (scopeSheet ctx s).1) := by
  have hsame : ctx.scope = scope := by
    rw [Context.eq_of_ofScope hctx]
  have hne : ctx.scope ≠ [] := by
    intro hnil
    rw [← hsame, hnil] at hctx
    exact absurd hctx (by simp [Context.ofScope, isBlankText])
  have hback := parse?_scopeSheet hparse hne (hsame ▸ hscope) hnames
  refine ⟨(scopeSheet ctx s).1.text, by rw [scopeText?, hparse, Option.map_some], ⟨?_, ?_⟩, ?_⟩
  · intro h r hr
    exact readsAsRule_iff.2 (isHead_of_parse?_scopeSheet h hr)
  · intro h
    exact hback fun r hr => readsAsRule_iff.1 (h r hr)
  · intro h
    refine hback fun r hr => isHead_scopeList hctx hscope (h r hr) ?_
    exact isHead_of_mem_events hparse (Sheet.mem_freeRules_iff.1 hr)

/-- Keyframes and an animation are renamed. Of the members, one holds arguments that are written out
and a string with a brace in it, and the other is malformed. -/
theorem parse?_scopeText?_host :
    let ctx : Context := ⟨"s".toList, "[s]".toList, "[s-host]".toList, {}⟩
    let css : Text := "@keyframes k\x7b\x7d:host(p) [b='\x7b'],c[ \x7banimation:1s k\x7d".toList
    let text : Text :=
      "@keyframes k-s\x7b\x7dp[s-host] [b='\x7b'][s],c[ \x7banimation:1s k-s\x7d".toList
    Context.ofScope "s".toList = .ok ctx ∧ scopeText? ctx css = some text ∧
      ∃ s, parse? css = some s ∧ parse? text = some (scopeSheet ctx s).1 := by
  intro ctx css text
  have hctx : Context.ofScope "s".toList = .ok ctx := by decide +kernel
  have htext : scopeText? ctx css = some text := by decide +kernel
  have hcss : ∃ s ∈ parse? css, (∀ n ∈ declaredNames s.events, Blunt n.getLast?) ∧
      ∀ r ∈ s.freeRules, HarmlessList r.selector := by decide +kernel
  obtain ⟨s, hs, hnames, hrules⟩ := hcss
  obtain ⟨text', htext', -, hread⟩ := parse?_scopeText? hctx (by decide) hs hnames
  obtain rfl : text = text' := Option.some.inj (htext.symm.trans htext')
  exact ⟨hctx, htext, s, hs, hread hrules⟩

/-- The argument of the host context becomes the start of a custom property. -/
theorem parse?_scopeText?_hostContext :
    let ctx : Context := ⟨"s".toList, "[s]".toList, "[s-host]".toList, {}⟩
    let css : Text := ":host-context(--x:hover)\x7b\x7d".toList
    let text : Text := "--x:hover [s-host]\x7b\x7d".toList
    Context.ofScope "s".toList = .ok ctx ∧ scopeText? ctx css = some text ∧
      ∃ s, parse? css = some s ∧ parse? text ≠ some (scopeSheet ctx s).1 := by
  intro ctx css text
  have hcss : ∃ s ∈ parse? css, parse? text ≠ some (scopeSheet ctx s).1 := by decide +kernel
  exact ⟨by decide +kernel, by decide +kernel, hcss⟩

end StyleScope.Scope
