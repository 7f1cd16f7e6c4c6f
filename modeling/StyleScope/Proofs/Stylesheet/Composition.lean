import Mathlib.Data.List.Basic
import StyleScope.Proofs.Stylesheet.Blocks

/-! # Stylesheets behind one another

A sheet that ends with a statement that brings its own end along can be put in front of any other.
Its chunks are read as before: all but the last of them ended before the text did, and the last one
needs nothing of what follows (`Run.append`). Its blocks are all closed, so the statements of the
other sheet stay outside of them (`Block.Built.append`).
-/
namespace StyleScope.Stylesheet
open Text

theorem takeWhile_append_of_dropWhile_ne_nil {p : Char → Bool} {t : Text} (u : Text)
    (h : t.dropWhile p ≠ []) :
    (t ++ u).takeWhile p = t.takeWhile p ∧ (t ++ u).dropWhile p = t.dropWhile p ++ u := by
  have hdrop : (t ++ u).dropWhile p = t.dropWhile p ++ u := by
    rw [List.dropWhile_append, if_neg (by simpa [List.isEmpty_iff] using h)]
  refine ⟨?_, hdrop⟩
  have happ := List.takeWhile_append_dropWhile (p := p) (l := t ++ u)
  rw [hdrop, ← List.append_assoc] at happ
  have ht := List.takeWhile_append_dropWhile (p := p) (l := t)
  exact List.append_cancel_right ((List.append_cancel_right happ).trans ht.symm)

theorem forall_getLast?_cons {α : Type} {P : α → Prop} {a : α} {l : List α} :
    (∀ x ∈ (a :: l).getLast?, P x) ↔ (l = [] → P a) ∧ ∀ x ∈ l.getLast?, P x := by
  cases l with
  | nil => simp
  | cons b l => simp

/-- The chunk brings along what ends it. -/
def Chunk.SelfTerminated : Chunk → Prop
  | .node n => n.SelfTerminated
  | _ => True

/-- Chunks whose last one brings its end along are read again in front of any text. -/
theorem Run.append {t rest : Text} {cs : List Chunk} (h : Run t cs rest)
    (hlast : ∀ k ∈ cs.getLast?, k.SelfTerminated) (v : Text) : Run (t ++ v) cs (rest ++ v) := by
  induction h with
  | nil => exact .nil
  | @cons t u rest k cs hread hrun ih =>
      have hne : t.dropWhile isSpace ≠ [] := by
        intro hnil
        rw [hnil] at hread
        exact absurd hread.read? (by simp [Chunk.read?_nil])
      obtain ⟨htake, hdrop⟩ := takeWhile_append_of_dropWhile_ne_nil v hne
      obtain ⟨hk, hcs⟩ := forall_getLast?_cons.1 hlast
      rcases hread.append with hall | ⟨⟨n, rfl, hn⟩, hblank⟩
      · refine .cons (u := u ++ v) ?_ (ih hcs)
        rw [htake, hdrop]
        exact hall v
      · -- only blanks are left, so this was the last chunk
        cases hrun with
        | nil => exact absurd (hk rfl) hn
        | cons hnext _ =>
            rw [← List.append_nil u] at hnext
            exact absurd (hnext.close_of_endsBlock hblank (by simp [EndsBlock])).2 (by simp)

theorem Run.trans {t u rest : Text} {cs ds : List Chunk} (h : Run t cs u) (h' : Run u ds rest) :
    Run t (cs ++ ds) rest := by
  induction h with
  | nil => exact h'
  | cons hread _ ih => exact .cons hread (ih h')

namespace Block

/-- The stylesheet leaves nothing open: there is no space behind its last statement, which brings
its own end along. -/
structure Complete (b : Block) : Prop where
  top : b.nested = false
  after : b.after = []
  last : ∀ n ∈ b.nodes.getLast?, n.SelfTerminated

theorem Complete.tail {b : Block} {n : Node} (h : (b.cons n).Complete) : b.Complete where
  top := h.top
  after := h.after
  last := (forall_getLast?_cons.1 h.last).2

theorem Complete.head {b : Block} {n : Node} (h : (b.cons n).Complete) (hb : b.nodes = []) :
    n.SelfTerminated :=
  (forall_getLast?_cons.1 h.last).1 hb

namespace Built
variable {p q r : List Chunk × Text} {b inner : Block}

theorem eq_of_nil (h : Built ([], []) b q) : b.nodes = [] ∧ b.closed = false := by
  cases h with
  | done => exact ⟨rfl, rfl⟩

/-- A block is closed if the block around it goes on behind it, or is closed. -/
theorem closed_of_rest (hinner : Built p inner q) (hb : Built q b r)
    (h : b.nodes = [] → b.closed = true) : inner.closed = true := by
  rw [← Bool.not_eq_false]
  intro hopen
  obtain rfl := hinner.rest_of_not_closed hopen
  obtain ⟨hnodes, hclosed⟩ := hb.eq_of_nil
  exact absurd (h hnodes) (by simp [hclosed])

theorem closed_of_complete {head : Head} (hinner : Built p inner q) (hb : Built q b r)
    (h : (b.cons (head.withBlock inner)).Complete) : inner.closed = true := by
  by_cases hnodes : b.nodes = []
  · have hhead := h.head hnodes
    cases head <;> exact hhead
  · exact hinner.closed_of_rest hb fun hnil => absurd hnil hnodes

/-- A closed block ends with its closing brace. -/
theorem ends_of_closed (h : Built p b q) (hclosed : b.closed = true) :
    ∃ cs before, p.1 = cs ++ .close before :: q.1 ∧ p.2 = q.2 := by
  induction h with
  | done => exact absurd hclosed (by simp)
  | @close before _ cs => exact ⟨[], before, rfl, rfl⟩
  | stray _ _ ih =>
      obtain ⟨cs, before, hcs, hspace⟩ := ih hclosed
      exact ⟨_ :: cs, before, congrArg _ hcs, hspace⟩
  | node _ ih =>
      obtain ⟨cs, before, hcs, hspace⟩ := ih hclosed
      exact ⟨_ :: cs, before, congrArg _ hcs, hspace⟩
  | @block head _ _ _ _ _ _ _ hinner hb ihinner ih =>
      obtain ⟨cs, before, hcs, hspace⟩ := ih hclosed
      obtain ⟨ds, brace, hds, hinnerSpace⟩ := ihinner (hinner.closed_of_rest hb fun _ => hclosed)
      refine ⟨head.chunk :: ds ++ .close brace :: cs, before, ?_, hinnerSpace.trans hspace⟩
      simp only [hcs] at hds
      simp [hds]

/-- Nothing that follows a closed block gets into it. -/
theorem append_of_closed (h : Built p b q) (hclosed : b.closed = true) (ds : List Chunk)
    (space : Text) : Built (p.1 ++ ds, space) b (q.1 ++ ds, space) := by
  induction h with
  | done => exact absurd hclosed (by simp)
  | close => exact .close
  | stray hnested _ ih => exact .stray hnested (ih hclosed)
  | node _ ih => exact .node (ih hclosed)
  | block hnested hinner hb ihinner ih =>
      exact .block hnested (ihinner (hinner.closed_of_rest hb fun _ => hclosed)) (ih hclosed)

/-- The last chunk of a complete sheet brings its end along, and no space follows it. -/
theorem last_of_complete (h : Built p b q) (hb : b.Complete) :
    p.2 = [] ∧ ∀ k ∈ p.1.getLast?, k.SelfTerminated := by
  induction h with
  | done => exact ⟨hb.after, by simp⟩
  | close => exact absurd hb.top (by simp)
  | stray _ _ ih =>
      obtain ⟨hspace, hlast⟩ := ih hb.tail
      exact ⟨hspace, forall_getLast?_cons.2 ⟨fun _ => trivial, hlast⟩⟩
  | node hrest ih =>
      obtain ⟨hspace, hlast⟩ := ih hb.tail
      refine ⟨hspace, forall_getLast?_cons.2 ⟨?_, hlast⟩⟩
      rintro rfl
      obtain rfl : _ = [] := hspace
      exact hb.head hrest.eq_of_nil.1
  | @block head _ cs _ _ p _ _ hinner hrest _ ih =>
      obtain ⟨hspace, hlast⟩ := ih hb.tail
      obtain ⟨ds, brace, hds, hinnerSpace⟩ :=
        hinner.ends_of_closed (hinner.closed_of_complete hrest hb)
      obtain rfl : cs = ds ++ .close brace :: p.1 := hds
      refine ⟨hinnerSpace.trans hspace, ?_⟩
      rw [← List.cons_append, List.getLast?_append_cons]
      exact forall_getLast?_cons.2 ⟨fun _ => trivial, hlast⟩

/-- The statements of another sheet come behind those of a complete one. -/
theorem append (h : Built p b q) (hb : b.Complete) {ds : List Chunk} {space : Text} {c : Block}
    (hc : Built (ds, space) c r) (htop : c.nested = false) :
    Built (p.1 ++ ds, space) { c with nodes := b.nodes ++ c.nodes } r := by
  induction h with
  | done => exact hc
  | close => exact absurd hb.top (by simp)
  | stray _ _ ih =>
      refine .stray ?_ (ih hb.tail)
      exact htop
  | node _ ih => exact .node (ih hb.tail)
  | block hnested hinner hrest _ ih =>
      have hclosed := hinner.closed_of_complete hrest hb
      exact .block hnested (hinner.append_of_closed hclosed ds space) (ih hb.tail)

end Built
end Block

/-- A sheet in front of which a complete one stands is read as it is read alone. -/
theorem parse?_append {a b : Text} {s u : Sheet} (ha : parse? a = some s) (hb : parse? b = some u)
    (hafter : s.after = []) (hlast : ∀ n ∈ s.nodes.getLast?, n.SelfTerminated) :
    parse? (a ++ b) = some { nodes := s.nodes ++ u.nodes, after := u.after } := by
  obtain ⟨⟨cs, space⟩, hcs, hs⟩ := parse?_eq_some_iff.1 ha
  obtain ⟨⟨ds, rest⟩, hds, hu⟩ := parse?_eq_some_iff.1 hb
  have hcomplete : (Block.ofSheet s).Complete := ⟨rfl, hafter, hlast⟩
  obtain ⟨rfl, hchunk⟩ : space = [] ∧ ∀ k ∈ cs.getLast?, k.SelfTerminated :=
    hs.last_of_complete hcomplete
  obtain ⟨hfirst, -⟩ := chunks?_eq_some_iff.1 hcs
  obtain ⟨hsecond, hspace⟩ := chunks?_eq_some_iff.1 hds
  have hrun : Run (a ++ b) (cs ++ ds) rest := (hfirst.append hchunk b).trans hsecond
  refine parse?_eq_some_iff.2 ⟨(cs ++ ds, rest), chunks?_eq_some_iff.2 ⟨hrun, hspace⟩, ?_⟩
  exact hs.append hcomplete hu rfl

/-- What the second text starts with would be inside the comment or the block of the first one if
these were not closed. -/
theorem parse?_append_comment :
    parse? ("a\x7b\x7d/**/".toList ++ " */\x7d".toList) =
      some { nodes := [.rule { before := [], selector := ['a'], between := [], closed := true } [],
        .comment { before := [], text := "/**/".toList },
        .raw { before := [' '], text := "*/".toList, semicolon := false },
        .raw { before := [], text := ['}'], semicolon := false }] } := by
  have ha : parse? "a\x7b\x7d/**/".toList =
      some { nodes := [.rule { before := [], selector := ['a'], between := [], closed := true } [],
        .comment { before := [], text := "/**/".toList }] } := by decide +kernel
  have hb : parse? " */\x7d".toList =
      some { nodes := [.raw { before := [' '], text := "*/".toList, semicolon := false },
        .raw { before := [], text := ['}'], semicolon := false }] } := by decide +kernel
  refine parse?_append ha hb rfl ?_
  intro n hn
  obtain rfl := Option.some.inj hn
  exact ⟨[], rfl⟩

end StyleScope.Stylesheet
