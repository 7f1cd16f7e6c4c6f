import StyleScope.Proofs.Stylesheet.Progress

/-! # Blocks

Reading puts chunks on a stack of open blocks. Seen from a single block, its statements come one
after the other, and a statement with a block of its own takes the chunks up to the closing brace of
that block, or up to the end. `Block.Built` says so by recursion on the nesting, and the stack gives
the same tree (`parse?_eq_some_iff`).

What is left of a text is the chunks not used yet, with the space at the end of the text. That space
goes to the innermost block in which the text ends; a block around it finds neither chunks nor space
left (`Block.Built.rest_of_not_closed`).
-/
namespace StyleScope.Stylesheet
open Text

/-- A block: the whole stylesheet, or what a rule or an at-rule holds. -/
structure Block where
  /-- The block stands between braces. -/
  nested : Bool
  nodes : List Node
  after : Text
  closed : Bool

namespace Block

@[simps] def cons (n : Node) (b : Block) : Block := { b with nodes := n :: b.nodes }

def ofSheet (s : Sheet) : Block :=
  { nested := false, nodes := s.nodes, after := s.after, closed := false }

end Block

def strayBrace (before : Text) : Node := .raw { before, text := ['}'], semicolon := false }

inductive Head where
  | rule (rule : Rule)
  | atRule (rule : AtRule)

namespace Head

def chunk : Head → Chunk
  | rule r => .openRule r
  | atRule r => .openAt r

/-- The head with the statements of its block so far, latest first. -/
def frame (ns : List Node) : Head → Frame
  | rule r => .rule r ns
  | atRule r => .atRule r ns

def withBlock (b : Block) : Head → Node
  | rule r => .rule { r with after := b.after, closed := b.closed } b.nodes
  | atRule r => .atBlock { r with after := b.after, closed := b.closed } b.nodes

end Head

/-- The chunks a block is made of, with the space at the end of the text, and what it leaves. -/
inductive Block.Built : List Chunk × Text → Block → List Chunk × Text → Prop
  | done {nested : Bool} {space : Text} :
      Built ([], space) { nested, nodes := [], after := space, closed := false } ([], [])
  | close {before space : Text} {cs : List Chunk} :
      Built (.close before :: cs, space)
        { nested := true, nodes := [], after := before, closed := true } (cs, space)
  | stray {before space : Text} {cs : List Chunk} {b : Block} {q : List Chunk × Text} :
      b.nested = false → Built (cs, space) b q →
      Built (.close before :: cs, space) (b.cons (strayBrace before)) q
  | node {n : Node} {space : Text} {cs : List Chunk} {b : Block} {q : List Chunk × Text} :
      Built (cs, space) b q → Built (.node n :: cs, space) (b.cons n) q
  | block {h : Head} {space : Text} {cs : List Chunk} {inner b : Block}
      {p q : List Chunk × Text} :
      inner.nested = true → Built (cs, space) inner p → Built p b q →
      Built (h.chunk :: cs, space) (b.cons (h.withBlock inner)) q

namespace Block.Built
variable {p q : List Chunk × Text} {b : Block}

/-- A block in which the text ends leaves nothing, not even the space at the end. -/
theorem rest_of_not_closed (h : Built p b q) (hclosed : b.closed = false) : q = ([], []) := by
  induction h with
  | done => rfl
  | close => exact absurd hclosed (by simp)
  | stray _ _ ih => exact ih hclosed
  | node _ ih => exact ih hclosed
  | block _ _ _ _ ih => exact ih hclosed

theorem not_closed_of_not_nested (h : Built p b q) (hnested : b.nested = false) :
    b.closed = false := by
  induction h with
  | done => rfl
  | close => exact absurd hnested (by simp)
  | stray _ _ ih => exact ih hnested
  | node _ ih => exact ih hnested
  | block _ _ _ _ ih => exact ih hnested

theorem suffix (h : Built p b q) : q.1 <:+ p.1 := by
  induction h with
  | done => exact List.suffix_rfl
  | close => exact List.suffix_cons _ _
  | stray _ _ ih => exact ih.trans (List.suffix_cons _ _)
  | node _ ih => exact ih.trans (List.suffix_cons _ _)
  | block _ _ _ ihinner ih => exact ih.trans (ihinner.trans (List.suffix_cons _ _))

/-- Some block can be made of any chunks, within braces or not. -/
theorem exists_built (nested : Bool) (cs : List Chunk) (space : Text) :
    ∃ b q, b.nested = nested ∧ Built (cs, space) b q := by
  match cs with
  | [] => exact ⟨_, _, rfl, .done⟩
  | .close before :: cs =>
      cases nested with
      | true => exact ⟨_, _, rfl, .close⟩
      | false =>
          obtain ⟨b, q, hnested, hb⟩ := exists_built false cs space
          exact ⟨b.cons (strayBrace before), q, hnested, .stray hnested hb⟩
  | .node n :: cs =>
      obtain ⟨b, q, hnested, hb⟩ := exists_built nested cs space
      exact ⟨b.cons n, q, hnested, .node hb⟩
  | .openRule r :: cs =>
      obtain ⟨inner, p, hinner, hi⟩ := exists_built true cs space
      have hlength : p.1.length ≤ cs.length := hi.suffix.length_le
      obtain ⟨b, q, hnested, hb⟩ := exists_built nested p.1 p.2
      exact ⟨b.cons ((Head.rule r).withBlock inner), q, hnested, .block (h := .rule r) hinner hi hb⟩
  | .openAt r :: cs =>
      obtain ⟨inner, p, hinner, hi⟩ := exists_built true cs space
      have hlength : p.1.length ≤ cs.length := hi.suffix.length_le
      obtain ⟨b, q, hnested, hb⟩ := exists_built nested p.1 p.2
      exact ⟨b.cons ((Head.atRule r).withBlock inner), q, hnested,
        .block (h := .atRule r) hinner hi hb⟩
termination_by cs.length

end Block.Built

/-- The open block with more statements. -/
def Frame.extend (f : Frame) (ns : List Node) : Frame := ns.foldl (fun f n => f.push n) f

theorem Head.extend_frame (head : Head) (ms ns : List Node) :
    (head.frame ms).extend ns = head.frame (ns.reverse ++ ms) := by
  induction ns generalizing ms with
  | nil => rfl
  | cons n ns ih =>
      have hpush : (head.frame ms).push n = head.frame (n :: ms) := by
        cases head <;> rfl
      rw [List.reverse_cons, List.append_assoc, List.singleton_append, ← ih (n :: ms), ← hpush]
      rfl

theorem Head.close_frame (head : Head) (b : Block) :
    ((head.frame []).extend b.nodes).close b.after b.closed = head.withBlock b := by
  rw [head.extend_frame, List.append_nil]
  cases head with
  | rule r => rw [frame, Frame.close, List.reverse_reverse, withBlock]
  | atRule r => rw [frame, Frame.close, List.reverse_reverse, withBlock]

namespace Growth

/-- The sheet a tree under construction becomes with the chunks and the space that are left. -/
def resume (g : Growth) (p : List Chunk × Text) : Sheet := (p.1.foldl add g).finish p.2

theorem finish_push_nil (n : Node) (fs : List Frame) (nodes : List Node) :
    (push n ⟨fs, nodes⟩).finish [] = { nodes := (closeAll n fs :: nodes).reverse } := by
  cases fs with
  | nil => rfl
  | cons f fs => rfl

/-- The stack finishes the block on its top with the statements, the space and the brace that the
block has, and goes on in the block below; at the bottom it finishes the sheet. -/
theorem resume_of_built {p q : List Chunk × Text} {b : Block} (h : b.Built p q) :
    (b.nested = true → ∀ f fs nodes, resume ⟨f :: fs, nodes⟩ p =
      resume (push ((f.extend b.nodes).close b.after b.closed) ⟨fs, nodes⟩) q) ∧
    (b.nested = false → ∀ nodes, resume ⟨[], nodes⟩ p =
      { nodes := nodes.reverse ++ b.nodes, after := b.after }) := by
  induction h with
  | @done nested space =>
      constructor
      · intro _ f fs nodes
        exact (finish_push_nil (f.close space false) fs nodes).symm
      · intro _ nodes
        exact congrArg (Sheet.mk · space) (List.append_nil _).symm
  | close =>
      constructor
      · intro _ f fs nodes
        rfl
      · intro hnested
        exact absurd hnested (by simp)
  | @stray before _ _ b _ hb _ ih =>
      constructor
      · intro hnested
        exact absurd (hb.symm.trans hnested) (by simp)
      · intro hnested nodes
        refine (ih.2 hb (strayBrace before :: nodes)).trans ?_
        simp
  | @node n _ _ b _ _ ih =>
      constructor
      · intro hnested f fs nodes
        exact ih.1 hnested (f.push n) fs nodes
      · intro hnested nodes
        refine (ih.2 hnested (n :: nodes)).trans ?_
        simp
  | @block head space cs inner b p q hi _ _ ihinner ih =>
      have hopen (fs : List Frame) (nodes : List Node) :
          resume ⟨fs, nodes⟩ (head.chunk :: cs, space) =
            resume (push (head.withBlock inner) ⟨fs, nodes⟩) p := by
        rw [← head.close_frame, ← ihinner.1 hi]
        cases head <;> rfl
      constructor
      · intro hnested f fs nodes
        exact (hopen (f :: fs) nodes).trans (ih.1 hnested (f.push (head.withBlock inner)) fs nodes)
      · intro hnested nodes
        refine (hopen [] nodes).trans ((ih.2 hnested (head.withBlock inner :: nodes)).trans ?_)
        simp

end Growth

/-- A text stands for a sheet just when its chunks make up the sheet as a block. -/
theorem parse?_eq_some_iff {t : Text} {s : Sheet} :
    parse? t = some s ↔ ∃ p, chunks? t = some p ∧ Block.Built p (Block.ofSheet s) ([], []) := by
  rw [parse?, Option.map_eq_some_iff]
  constructor
  · rintro ⟨p, hp, rfl⟩
    obtain ⟨⟨nested, nodes, after, closed⟩, q, hnested, hb⟩ :=
      Block.Built.exists_built false p.1 p.2
    obtain rfl : nested = false := hnested
    obtain rfl : closed = false := hb.not_closed_of_not_nested rfl
    obtain rfl := hb.rest_of_not_closed rfl
    have hsheet : (p.1.foldl Growth.add {}).finish p.2 = { nodes, after } :=
      (Growth.resume_of_built hb).2 rfl []
    refine ⟨p, hp, ?_⟩
    rw [hsheet]
    exact hb
  · rintro ⟨p, hp, hb⟩
    exact ⟨p, hp, (Growth.resume_of_built hb).2 rfl []⟩

end StyleScope.Stylesheet
