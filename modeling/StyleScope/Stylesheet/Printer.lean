import StyleScope.Stylesheet.Basic

/-! # Writing stylesheets

Every piece of a statement is written as it is stored. An at-rule with a block writes no semicolon.
A statement is written in front of what follows it, so that the text of a block is not copied once
more for each block around it; `Node.text_rule` and its like say what is written.
-/
namespace StyleScope.Stylesheet

def semicolonText (present : Bool) : Text := if present then [';'] else []

def braceText (present : Bool) : Text := if present then ['}'] else []

def Rule.headText (r : Rule) : Text := r.before ++ r.selector ++ r.between

def AtRule.headText (r : AtRule) : Text :=
  r.before ++ '@' :: r.name ++ r.afterName ++ r.params ++ r.between

def Declaration.text (d : Declaration) : Text :=
  d.before ++ d.prop ++ d.between ++ d.value ++ d.afterValue ++ semicolonText d.semicolon

mutual
/-- The written form of a statement in front of a text. -/
def Node.textBefore (tail : Text) : Node → Text
  | .rule r nodes =>
    r.headText ++ '{' :: nodesBefore (r.after ++ (braceText r.closed ++ tail)) nodes
  | .atBlock r nodes =>
    r.headText ++ '{' :: nodesBefore (r.after ++ (braceText r.closed ++ tail)) nodes
  | .atStatement r => r.headText ++ (semicolonText r.semicolon ++ tail)
  | .declaration d => d.text ++ tail
  | .comment c => c.before ++ (c.text ++ tail)
  | .raw r => r.before ++ (r.text ++ (semicolonText r.semicolon ++ tail))

/-- The written form of a list of statements in front of a text. -/
def nodesBefore (tail : Text) : List Node → Text
  | [] => tail
  | n :: ns => n.textBefore (nodesBefore tail ns)
end

def Node.text (n : Node) : Text := n.textBefore []

def nodesText (ns : List Node) : Text := nodesBefore [] ns

def Sheet.text (s : Sheet) : Text := nodesBefore s.after s.nodes

mutual
theorem Node.textBefore_append (tail u : Text) : ∀ n : Node,
    n.textBefore tail ++ u = n.textBefore (tail ++ u)
  | .rule r ns => by simp [Node.textBefore, nodesBefore_append]
  | .atBlock r ns => by simp [Node.textBefore, nodesBefore_append]
  | .atStatement r => by simp [Node.textBefore]
  | .declaration d => by simp [Node.textBefore]
  | .comment c => by simp [Node.textBefore]
  | .raw r => by simp [Node.textBefore]

theorem nodesBefore_append (tail u : Text) : ∀ ns : List Node,
    nodesBefore tail ns ++ u = nodesBefore (tail ++ u) ns
  | [] => rfl
  | n :: ns => by rw [nodesBefore, nodesBefore, Node.textBefore_append, nodesBefore_append]
end

theorem Node.textBefore_eq (tail : Text) (n : Node) : n.textBefore tail = n.text ++ tail :=
  (Node.textBefore_append [] tail n).symm

theorem nodesBefore_eq (tail : Text) (ns : List Node) :
    nodesBefore tail ns = nodesText ns ++ tail :=
  (nodesBefore_append [] tail ns).symm

theorem Sheet.text_eq (s : Sheet) : s.text = nodesText s.nodes ++ s.after :=
  nodesBefore_eq s.after s.nodes

@[simp] theorem Node.text_rule (r : Rule) (ns : List Node) :
    (Node.rule r ns).text = r.headText ++ '{' :: nodesText ns ++ r.after ++ braceText r.closed := by
  simp [Node.text, Node.textBefore, nodesBefore_eq]

@[simp] theorem Node.text_atBlock (r : AtRule) (ns : List Node) :
    (Node.atBlock r ns).text =
      r.headText ++ '{' :: nodesText ns ++ r.after ++ braceText r.closed := by
  simp [Node.text, Node.textBefore, nodesBefore_eq]

@[simp] theorem Node.text_atStatement (r : AtRule) :
    (Node.atStatement r).text = r.headText ++ semicolonText r.semicolon := by
  simp [Node.text, Node.textBefore]

@[simp] theorem Node.text_declaration (d : Declaration) : (Node.declaration d).text = d.text := by
  simp [Node.text, Node.textBefore]

@[simp] theorem Node.text_comment (c : Comment) : (Node.comment c).text = c.before ++ c.text := by
  simp [Node.text, Node.textBefore]

@[simp] theorem Node.text_raw (r : Raw) :
    (Node.raw r).text = r.before ++ r.text ++ semicolonText r.semicolon := by
  simp [Node.text, Node.textBefore]

@[simp] theorem nodesText_nil : nodesText [] = [] := rfl

@[simp] theorem nodesText_cons (n : Node) (ns : List Node) :
    nodesText (n :: ns) = n.text ++ nodesText ns :=
  Node.textBefore_eq (nodesText ns) n

@[simp] theorem nodesText_append (ns ms : List Node) :
    nodesText (ns ++ ms) = nodesText ns ++ nodesText ms := by
  induction ns with
  | nil => rfl
  | cons n ns ih => rw [List.cons_append, nodesText_cons, nodesText_cons, ih, List.append_assoc]

end StyleScope.Stylesheet
