import StyleScope.Stylesheet.Printer
import StyleScope.Stylesheet.Statement
import StyleScope.Text.Comment

/-! # Chunks of a stylesheet

Before any nesting is known, a stylesheet is a sequence of chunks: whole statements, the heads of
blocks up to their opening brace, and closing braces. Each chunk takes the space before it along.

A statement that ends at a closing brace or with the text leaves the blanks it ends with to
whatever follows. If it consists of blanks only it takes nothing, and reading would never get any
further; `chunks?` has no answer for such a text.
-/
namespace StyleScope.Stylesheet
open Text

inductive Chunk where
  /-- A statement without a block. -/
  | node (node : Node)
  /-- A rule and its opening brace. -/
  | openRule (rule : Rule)
  /-- An at-rule and its opening brace. -/
  | openAt (rule : AtRule)
  /-- A closing brace and the space before it. -/
  | close (before : Text)
deriving Repr

namespace Chunk

def text : Chunk → Text
  | node n => n.text
  | openRule r => r.headText ++ ['{']
  | openAt r => r.headText ++ ['{']
  | close before => before ++ ['}']

/-- The at-rule with a name whose parameters were cut into what belongs to them and the text that
ends them. -/
def atRuleOf (before name : Text) (p : Text × Text) : Chunk × Text :=
  let body := trimEnd p.1
  let rule : AtRule :=
    { before, name, afterName := leadingBlanks body, params := trimStart body,
      between := trailingBlanks p.1 }
  match p.2 with
  | '{' :: rest => (openAt rule, rest)
  | ';' :: rest => (node (.atStatement { rule with semicolon := true }), rest)
  | rest => (node (.atStatement { rule with between := [] }), trailingBlanks p.1 ++ rest)

/-- An at-rule, `t` standing after its sign. -/
def readAtRule (before t : Text) : Chunk × Text :=
  atRuleOf before (t.takeWhile isNamePart) (cutStatement (t.dropWhile isNamePart))

def plainNode (before content afterValue : Text) (semicolon : Bool) : Node :=
  match splitDeclaration? content with
  | some (prop, between, value) =>
    .declaration { before, prop, between, value, afterValue, semicolon }
  | none => .raw { before, text := content ++ afterValue, semicolon }

/-- The rule, declaration or raw statement that was cut into what belongs to it and the text that
ends it; none if it takes nothing. -/
def statementOf? (before : Text) (p : Text × Text) : Option (Chunk × Text) :=
  let content := trimEnd p.1
  let blanks := trailingBlanks p.1
  match p.2 with
  | '{' :: rest => some (openRule { before, selector := content, between := blanks }, rest)
  | ';' :: rest => some (node (plainNode before content blanks true), rest)
  | rest =>
    if content.isEmpty then none
    else some (node (plainNode before content [] false), blanks ++ rest)

def readStatement? (before t : Text) : Option (Chunk × Text) := statementOf? before (cutAny t)

/-- The chunk that starts after the space `before`, and what follows it. -/
def read? (before : Text) : Text → Option (Chunk × Text)
  | '}' :: r => some (close before, r)
  | ';' :: r => some (node (.raw { before, text := [], semicolon := true }), r)
  | '@' :: r => some (readAtRule before r)
  | '/' :: '*' :: r =>
    let p := splitComment r
    some (node (.comment { before, text := '/' :: '*' :: p.1 }), p.2)
  | t => readStatement? before t

/-- A chunk and the text left after it make up a text with the space before it, of which it took
at least a character. -/
def Takes (before t : Text) (p : Chunk × Text) : Prop :=
  p.1.text ++ p.2 = before ++ t ∧ before.length < p.1.text.length

theorem plainNode_text (before content afterValue : Text) (semicolon : Bool) :
    (plainNode before content afterValue semicolon).text =
      before ++ content ++ afterValue ++ semicolonText semicolon := by
  unfold plainNode
  split
  · next prop between value h =>
    simp [Declaration.text, ← splitDeclaration?_append h]
  · simp

theorem takes_atRuleOf (before name : Text) (p : Text × Text) :
    Takes before ('@' :: name ++ p.1 ++ p.2) (atRuleOf before name p) := by
  have hb : leadingBlanks (trimEnd p.1) ++ (trimStart (trimEnd p.1) ++ trailingBlanks p.1) =
      p.1 := by
    rw [← List.append_assoc, leadingBlanks_append_trimStart, trimEnd_append_trailingBlanks]
  unfold atRuleOf
  dsimp only
  generalize leadingBlanks (trimEnd p.1) = lead at *
  generalize trimStart (trimEnd p.1) = params at *
  generalize trailingBlanks p.1 = trail at *
  split
  · next rest e => simp [Takes, text, AtRule.headText, e, ← hb]
  · next rest e => simp [Takes, text, AtRule.headText, semicolonText, e, ← hb]
  · simp [Takes, text, AtRule.headText, semicolonText, ← hb]

theorem takes_readAtRule (before r : Text) : Takes before ('@' :: r) (readAtRule before r) := by
  have h := takes_atRuleOf before (r.takeWhile isNamePart) (cutStatement (r.dropWhile isNamePart))
  rwa [List.append_assoc, cutStatement_append, List.cons_append,
    List.takeWhile_append_dropWhile] at h

theorem takes_statementOf? {before : Text} {p : Text × Text} {q : Chunk × Text}
    (h : statementOf? before p = some q) : Takes before (p.1 ++ p.2) q := by
  have hb := trimEnd_append_trailingBlanks p.1
  unfold statementOf? at h
  dsimp only at h
  generalize trimEnd p.1 = content at *
  generalize trailingBlanks p.1 = blanks at *
  split at h
  · next rest e =>
    obtain rfl := Option.some.inj h
    refine ⟨by simp [text, Rule.headText, e, ← hb], ?_⟩
    simp only [text, Rule.headText, List.length_append, List.length_cons]
    omega
  · next rest e =>
    obtain rfl := Option.some.inj h
    refine ⟨by simp [text, plainNode_text, semicolonText, e, ← hb], ?_⟩
    simp only [text, plainNode_text, semicolonText, if_pos, List.length_append, List.length_cons]
    omega
  · split at h
    · exact absurd h (by simp)
    · next hne =>
      obtain rfl := Option.some.inj h
      have hpos : 0 < content.length := List.length_pos_iff.2 (mt List.isEmpty_iff.2 hne)
      simpa [Takes, text, plainNode_text, semicolonText, ← hb] using hpos

theorem takes_readStatement? {before t : Text} {p : Chunk × Text}
    (h : readStatement? before t = some p) : Takes before t p := by
  have := takes_statementOf? h
  rwa [cutAny_append] at this

/-- Nothing is lost: a chunk and what is left make up the text with the space before it. -/
theorem takes_read? {before t : Text} {p : Chunk × Text} (h : read? before t = some p) :
    Takes before t p := by
  unfold read? at h
  split at h
  · obtain rfl := Option.some.inj h
    simp [Takes, text]
  · obtain rfl := Option.some.inj h
    simp [Takes, text, semicolonText]
  · obtain rfl := Option.some.inj h
    exact takes_readAtRule before _
  · obtain rfl := Option.some.inj h
    simp [Takes, text]
  · exact takes_readStatement? h

theorem length_read?_rest {before t rest : Text} {c : Chunk}
    (h : read? before t = some (c, rest)) : rest.length < t.length := by
  have ht := takes_read? h
  have hl : (c.text ++ rest).length = (before ++ t).length := congrArg List.length ht.1
  have hp : before.length < c.text.length := ht.2
  rw [List.length_append, List.length_append] at hl
  omega

end Chunk

/-- The chunks of a text and the space after the last one; none if some statement takes nothing. -/
def chunks? (t : Text) : Option (List Chunk × Text) :=
  match _h : t.dropWhile isSpace with
  | [] => some ([], t.takeWhile isSpace)
  | c :: r =>
    match _hc : Chunk.read? (t.takeWhile isSpace) (c :: r) with
    | none => none
    | some (k, rest) => (chunks? rest).map fun q => (k :: q.1, q.2)
termination_by t.length
decreasing_by
  have hr := Chunk.length_read?_rest _hc
  have hd := congrArg List.length (List.takeWhile_append_dropWhile (p := isSpace) (l := t))
  rw [_h, List.length_append] at hd
  omega

end StyleScope.Stylesheet
