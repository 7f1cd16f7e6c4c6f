import StyleScope.Proofs.Stylesheet.Blocks

/-! # The form of a tree that was read

A sheet can hold fields that no text is read into. Reading only makes trees in canonical form: the
space and the blanks around the pieces of a statement are where they belong, and what the text ends
in, or leaves without an end of its own, comes last in its block.

The fields are settled chunk by chunk (`Chunk.Read.canonical`), and so is what follows a statement
without an end (`Run.closes`). The rest is about blocks and goes by induction on the nesting
(`Block.Built.canonical`).
-/
namespace StyleScope.Stylesheet
open Text

/-- The selector is trimmed behind and starts as no other statement would. -/
structure Rule.Canonical (r : Rule) : Prop where
  before : r.before.all isSpace = true
  trimmed : trimEnd r.selector = r.selector
  starts : StartsStatement r.selector
  noSpace : ∀ c ∈ r.selector.head?, isSpace c = false
  between : r.between.all isBlank = true

/-- What at-rules with and without a block have in common. -/
structure AtRule.Canonical (r : AtRule) : Prop where
  before : r.before.all isSpace = true
  params : Trimmed r.params
  between : r.between.all isBlank = true

structure Declaration.Canonical (d : Declaration) : Prop where
  before : d.before.all isSpace = true
  between : ∃ u v : Text, u.all isBlank = true ∧ v.all isBlank = true ∧ d.between = u ++ ':' :: v
  value : Trimmed d.value
  afterValue : d.semicolon = false → d.afterValue = []

/-- The fields of the statement itself are in canonical form. -/
def Node.Canonical : Node → Prop
  | .rule r _ => r.Canonical
  | .atBlock r _ => r.Canonical ∧ r.semicolon = false
  | .atStatement r => r.Canonical ∧ r.after = [] ∧ (r.semicolon = false → r.between = [])
  | .declaration d => d.Canonical
  | .comment c => c.before.all isSpace = true
  | .raw r => r.before.all isSpace = true

/-- The text ended inside the block of the statement. -/
def Node.Unclosed : Node → Prop
  | .rule r _ => r.closed = false
  | .atBlock r _ => r.closed = false
  | _ => False

def Node.Stray : Node → Prop
  | .raw r => r.text = ['}'] ∧ r.semicolon = false
  | _ => False

/-- The statement has neither a block nor a semicolon and is no comment or stray brace. -/
def Node.Unended : Node → Prop
  | .atStatement r => r.semicolon = false
  | .declaration d => d.semicolon = false
  | .raw r => r.semicolon = false ∧ r.text ≠ ['}']
  | _ => False

/-- A block in canonical form; `n :: r <:+ b.nodes` says that `n` is a statement of the block and
that `r` comes behind it. -/
structure Block.Canonical (b : Block) : Prop where
  after : b.after.all isSpace = true
  nodes : ∀ n ∈ b.nodes, n.Canonical
  unclosed : ∀ n r, n :: r <:+ b.nodes → n.Unclosed → r = [] ∧ b.after = [] ∧ b.closed = false
  unended : ∀ n r, n :: r <:+ b.nodes → n.Unended →
    r = [] ∨ b.nested = false ∧ ∃ m ∈ r.head?, m.Stray

mutual
/-- The blocks in a statement, at any depth. -/
def Node.blocks : Node → List Block
  | .rule r ns => { nested := true, nodes := ns, after := r.after, closed := r.closed } ::
      nodesBlocks ns
  | .atBlock r ns => { nested := true, nodes := ns, after := r.after, closed := r.closed } ::
      nodesBlocks ns
  | _ => []

def nodesBlocks : List Node → List Block
  | [] => []
  | n :: ns => n.blocks ++ nodesBlocks ns
end

/-- The sheet and the blocks in it, at any depth. -/
def Sheet.blocks (s : Sheet) : List Block := Block.ofSheet s :: nodesBlocks s.nodes

/-! ### Fields -/

theorem StartsStatement.of_append {t u : Text} (h : StartsStatement (t ++ u)) :
    StartsStatement t := by
  constructor
  · intro c hc
    apply h.head
    rw [List.head?_append, Option.mem_def.1 hc]
    rfl
  · rw [← Bool.not_eq_true]
    intro hcomment
    obtain ⟨r, rfl⟩ := startsComment_eq_true_iff.1 hcomment
    exact absurd h.comment (by simp [startsComment])

theorem trimEnd_of_suffix {t u : Text} (h : trimEnd t = t) (hu : u <:+ t) : trimEnd u = u := by
  obtain ⟨v, rfl⟩ := hu
  rw [trimEnd_eq_self_iff] at h ⊢
  intro c hc
  apply h
  rw [List.getLast?_append, Option.mem_def.1 hc]
  rfl

theorem splitDeclaration?_canonical {t prop between value : Text} (ht : trimEnd t = t)
    (h : splitDeclaration? t = some (prop, between, value)) :
    (∃ u v : Text, u.all isBlank = true ∧ v.all isBlank = true ∧ between = u ++ ':' :: v) ∧
      Trimmed value := by
  have happ := splitDeclaration?_append h
  unfold splitDeclaration? at h
  split at h
  · exact absurd h (by simp)
  · next left c right _ =>
    obtain ⟨rfl, rfl, rfl⟩ : _ ∧ _ ∧ _ := by simpa using h
    refine ⟨⟨_, _, all_trailingBlanks left, List.all_takeWhile, rfl⟩, trimStart_trimStart right, ?_⟩
    exact trimEnd_of_suffix ht ⟨_, happ⟩

theorem Chunk.plainNode_canonical {before content afterValue : Text} {semicolon : Bool}
    (hbefore : before.all isSpace = true) (hcontent : trimEnd content = content)
    (hafter : semicolon = false → afterValue = []) :
    (plainNode before content afterValue semicolon).Canonical := by
  unfold plainNode
  split
  · next prop between value hsplit =>
    obtain ⟨hbetween, hvalue⟩ := splitDeclaration?_canonical hcontent hsplit
    exact ⟨hbefore, hbetween, hvalue, hafter⟩
  · exact hbefore

theorem Chunk.blocks_plainNode (before content afterValue : Text) (semicolon : Bool) :
    (plainNode before content afterValue semicolon).blocks = [] := by
  unfold plainNode
  split <;> rfl

/-- A chunk in canonical form; a statement that is a chunk has no block. -/
def Chunk.Canonical : Chunk → Prop
  | .node n => n.Canonical ∧ n.blocks = []
  | .openRule r => r.Canonical
  | .openAt r => r.Canonical ∧ r.semicolon = false
  | .close before => before.all isSpace = true

theorem Chunk.Read.canonical {before t u : Text} {k : Chunk} (h : Read before t k u)
    (hbefore : before.all isSpace = true) (hspace : ∀ c ∈ t.head?, isSpace c = false) :
    k.Canonical := by
  cases h with
  | close => exact hbefore
  | empty => exact ⟨hbefore, rfl⟩
  | comment => exact ⟨hbefore, rfl⟩
  | openComment => exact ⟨hbefore, rfl⟩
  | openAt h => exact ⟨⟨hbefore, h.trimmed, h.allBlank⟩, rfl⟩
  | endedAt h => exact ⟨⟨⟨hbefore, h.trimmed, h.allBlank⟩, rfl, by simp⟩, rfl⟩
  | unendedAt h => exact ⟨⟨⟨hbefore, h.trimmed, rfl⟩, rfl, fun _ => rfl⟩, rfl⟩
  | openRule h =>
      refine ⟨hbefore, h.trimmed, h.starts.of_append.of_append, ?_, h.allBlank⟩
      intro c hc
      apply hspace
      rw [List.append_assoc, List.head?_append, Option.mem_def.1 hc]
      rfl
  | ended h =>
      exact ⟨plainNode_canonical hbefore h.trimmed (by simp), blocks_plainNode _ _ _ _⟩
  | unended _ h =>
      exact ⟨plainNode_canonical hbefore h.trimmed fun _ => rfl, blocks_plainNode _ _ _ _⟩

theorem Run.canonical {t rest : Text} {cs : List Chunk} (h : Run t cs rest) :
    ∀ k ∈ cs, k.Canonical := by
  induction h with
  | nil => simp
  | @cons t _ _ _ _ hread _ ih =>
      have hcanonical := hread.canonical List.all_takeWhile (forall_head?_dropWhile isSpace t)
      exact List.forall_mem_cons.2 ⟨hcanonical, ih⟩

/-! ### What follows a statement without an end -/

theorem Chunk.not_unended_plainNode (before content afterValue : Text) :
    ¬(plainNode before content afterValue true).Unended := by
  unfold plainNode
  split
  · simp [Node.Unended]
  · simp [Node.Unended]

theorem Chunk.Read.rest_of_unended {before t u : Text} {n : Node} (h : Read before t (.node n) u)
    (hn : n.Unended) :
    ∃ blanks tail, u = blanks ++ tail ∧ blanks.all isBlank = true ∧ EndsBlock tail := by
  cases h with
  | empty => exact absurd hn (by simp [Node.Unended])
  | comment => exact hn.elim
  | openComment => exact hn.elim
  | endedAt => exact absurd hn (by simp [Node.Unended])
  | unendedAt h hend => exact ⟨_, _, rfl, h.allBlank, hend⟩
  | ended => exact absurd hn (not_unended_plainNode _ _ _)
  | unended _ h hend => exact ⟨_, _, rfl, h.allBlank, hend⟩

/-- A statement without an end is followed by a closing brace, if by anything. -/
theorem Run.closes {t rest : Text} {cs : List Chunk} (h : Run t cs rest) :
    ∀ n r, .node n :: r <:+ cs → n.Unended → ∀ k ∈ r.head?, ∃ before, k = .close before := by
  induction h with
  | nil =>
      intro n r hsuffix
      exact absurd (List.suffix_nil.1 hsuffix) (by simp)
  | cons hread hrun ih =>
      intro n r hsuffix hn k hk
      rcases List.suffix_cons_iff.1 hsuffix with hhead | htail
      · injection hhead with hnode hr
        subst hnode hr
        obtain ⟨blanks, tail, rfl, hblanks, htail⟩ := hread.rest_of_unended hn
        cases hrun with
        | nil => exact absurd hk (by simp)
        | cons hnext _ =>
            obtain rfl := Option.some.inj hk
            exact ⟨_, (hnext.close_of_endsBlock hblanks htail).1⟩
      · exact ih n r htail hn k hk

/-! ### Blocks -/

theorem Node.not_unclosed_of_blocks {n : Node} (h : n.blocks = []) : ¬n.Unclosed := by
  cases n with
  | rule => exact absurd h (by simp [Node.blocks])
  | atBlock => exact absurd h (by simp [Node.blocks])
  | _ => exact id

theorem Block.Canonical.cons {b : Block} {n : Node} (h : b.Canonical) (hn : n.Canonical)
    (hunclosed : n.Unclosed → b.nodes = [] ∧ b.after = [] ∧ b.closed = false)
    (hunended : n.Unended → b.nodes = [] ∨ b.nested = false ∧ ∃ m ∈ b.nodes.head?, m.Stray) :
    (b.cons n).Canonical where
  after := h.after
  nodes := List.forall_mem_cons.2 ⟨hn, h.nodes⟩
  unclosed := by
    intro m r hsuffix hm
    rcases List.suffix_cons_iff.1 hsuffix with hhead | htail
    · obtain ⟨rfl, rfl⟩ := List.cons.inj hhead
      exact hunclosed hm
    · exact h.unclosed m r htail hm
  unended := by
    intro m r hsuffix hm
    rcases List.suffix_cons_iff.1 hsuffix with hhead | htail
    · obtain ⟨rfl, rfl⟩ := List.cons.inj hhead
      exact hunended hm
    · exact h.unended m r htail hm

theorem Block.Canonical.nil {nested closed : Bool} {after : Text}
    (h : after.all isSpace = true) : (Block.mk nested [] after closed).Canonical where
  after := h
  nodes := by simp
  unclosed := fun n r hsuffix => absurd (List.suffix_nil.1 hsuffix) (by simp)
  unended := fun n r hsuffix => absurd (List.suffix_nil.1 hsuffix) (by simp)

/-- Where a closing brace comes next, the block is at its end or the brace is a stray one. -/
theorem Block.Built.closes {cs : List Chunk} {space : Text} {b : Block} {q : List Chunk × Text}
    (h : Built (cs, space) b q) (hcs : ∀ k ∈ cs.head?, ∃ before, k = .close before) :
    b.nodes = [] ∨ b.nested = false ∧ ∃ m ∈ b.nodes.head?, m.Stray := by
  cases h with
  | done => exact .inl rfl
  | close => exact .inl rfl
  | stray hnested _ => exact .inr ⟨hnested, _, rfl, rfl, rfl⟩
  | node => exact absurd (hcs _ rfl) (by simp)
  | @block head =>
      obtain ⟨before, hclose⟩ := hcs _ rfl
      cases head <;> exact absurd hclose (by simp [Head.chunk])

theorem Head.withBlock_canonical {head : Head} (h : head.chunk.Canonical) (b : Block) :
    (head.withBlock b).Canonical := by
  cases head with
  | rule r => exact ⟨h.before, h.trimmed, h.starts, h.noSpace, h.between⟩
  | atRule r => exact ⟨⟨h.1.before, h.1.params, h.1.between⟩, h.2⟩

theorem Head.unclosed_withBlock (head : Head) (b : Block) :
    (head.withBlock b).Unclosed ↔ b.closed = false := by
  cases head <;> rfl

theorem Head.not_unended_withBlock (head : Head) (b : Block) : ¬(head.withBlock b).Unended := by
  cases head <;> exact id

theorem Head.blocks_withBlock (head : Head) {b : Block} (h : b.nested = true) :
    (head.withBlock b).blocks = b :: nodesBlocks b.nodes := by
  obtain ⟨nested, nodes, after, closed⟩ := b
  obtain rfl : nested = true := h
  cases head with
  | rule r => rw [withBlock, Node.blocks]
  | atRule r => rw [withBlock, Node.blocks]

/-- The chunks that are left are in canonical form, a statement without an end being followed by a
closing brace, and only space is left behind them. -/
structure Block.Ready (p : List Chunk × Text) : Prop where
  canonical : ∀ k ∈ p.1, k.Canonical
  closes : ∀ n r, .node n :: r <:+ p.1 → n.Unended → ∀ k ∈ r.head?, ∃ before, k = .close before
  space : p.2.all isSpace = true

theorem Block.Ready.head {k : Chunk} {cs : List Chunk} {space : Text}
    (h : Ready (k :: cs, space)) : k.Canonical :=
  h.canonical k List.mem_cons_self

theorem Block.Ready.tail {k : Chunk} {cs : List Chunk} {space : Text}
    (h : Ready (k :: cs, space)) : Ready (cs, space) where
  canonical := fun c hc => h.canonical c (List.mem_cons_of_mem _ hc)
  closes := fun n r hsuffix => h.closes n r (hsuffix.trans (List.suffix_cons _ _))
  space := h.space

theorem Block.Built.ready {p q : List Chunk × Text} {b : Block} (h : Built p b q) (hp : Ready p) :
    Ready q := by
  induction h with
  | done => exact ⟨by simp, fun n r hsuffix => absurd (List.suffix_nil.1 hsuffix) (by simp), rfl⟩
  | close => exact hp.tail
  | stray _ _ ih => exact ih hp.tail
  | node _ ih => exact ih hp.tail
  | block _ _ _ ihinner ih => exact ih (ihinner hp.tail)

theorem Block.Built.canonical {p q : List Chunk × Text} {b : Block} (h : Built p b q)
    (hp : Ready p) : ∀ c ∈ b :: nodesBlocks b.nodes, c.Canonical := by
  induction h with
  | done => exact List.forall_mem_singleton.2 (Canonical.nil hp.space)
  | close => exact List.forall_mem_singleton.2 (Canonical.nil hp.head)
  | @stray before _ _ b _ _ _ ih =>
      have htail := List.forall_mem_cons.1 (ih hp.tail)
      have hbrace : (strayBrace before).Canonical := hp.head
      refine List.forall_mem_cons.2 ⟨htail.1.cons hbrace ?_ ?_, htail.2⟩
      · exact False.elim
      · exact fun hn => absurd rfl hn.2
  | @node n _ cs b _ hb ih =>
      have htail := List.forall_mem_cons.1 (ih hp.tail)
      obtain ⟨hn, hleaf⟩ : n.Canonical ∧ n.blocks = [] := hp.head
      refine List.forall_mem_cons.2 ⟨htail.1.cons hn ?_ ?_, ?_⟩
      · exact fun hunclosed => absurd hunclosed (Node.not_unclosed_of_blocks hleaf)
      · exact fun hunended => hb.closes (hp.closes n cs List.suffix_rfl hunended)
      · rw [cons_nodes, nodesBlocks, hleaf]
        exact htail.2
  | @block head _ _ inner b p _ hi hinner hb ihinner ih =>
      have hafter := List.forall_mem_cons.1 (ih (hinner.ready hp.tail))
      have hnode := Head.withBlock_canonical hp.head inner
      refine List.forall_mem_cons.2 ⟨hafter.1.cons hnode ?_ ?_, ?_⟩
      · -- the text ended in the block, so that nothing is left for the block around it
        intro hunclosed
        obtain rfl := hinner.rest_of_not_closed ((head.unclosed_withBlock inner).1 hunclosed)
        cases hb with
        | done => exact ⟨rfl, rfl, rfl⟩
      · exact fun hunended => absurd hunended (head.not_unended_withBlock inner)
      · rw [cons_nodes, nodesBlocks, head.blocks_withBlock hi]
        exact List.forall_mem_append.2 ⟨ihinner hp.tail, hafter.2⟩

/-- Every block of a sheet that was read is in canonical form, the sheet itself included. -/
theorem parse?_canonical {t : Text} {s : Sheet} (h : parse? t = some s) :
    ∀ b ∈ s.blocks, b.Canonical := by
  obtain ⟨⟨cs, space⟩, hp, hb⟩ := parse?_eq_some_iff.1 h
  obtain ⟨hrun, hspace⟩ := chunks?_eq_some_iff.1 hp
  exact hb.canonical ⟨hrun.canonical, hrun.closes, hspace⟩

/-- Two open blocks, a statement without an end in the inner one and one before a stray brace. -/
theorem parse?_canonical_open :
    ∃ s, parse? "a \x7d b \x7b c:d ; @e (f) \x7b g : h ".toList = some s ∧
      ∀ b ∈ s.blocks, b.Canonical := by
  obtain ⟨s, hs⟩ : ∃ s, parse? "a \x7d b \x7b c:d ; @e (f) \x7b g : h ".toList = some s :=
    Option.isSome_iff_exists.1 (by decide +kernel)
  exact ⟨s, hs, parse?_canonical hs⟩

end StyleScope.Stylesheet
