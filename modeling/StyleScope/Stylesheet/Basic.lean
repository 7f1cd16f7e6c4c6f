import StyleScope.Basic
import StyleScope.Text.Word

/-! # Stylesheets

A stylesheet is a tree of statements that keeps every character of its text: the space before a
statement, around its pieces and before a closing brace is stored beside what it separates.
Rules and at-rules with a block hold the statements of the block.
-/
namespace StyleScope.Stylesheet
open Text

structure Rule where
  before : Text
  selector : Text
  /-- Between the selector and the opening brace. -/
  between : Text
  /-- Before the closing brace. -/
  after : Text := []
  /-- False when the text ended inside the block. -/
  closed : Bool := false
deriving DecidableEq, Repr, Inhabited

structure AtRule where
  before : Text
  name : Text
  afterName : Text
  params : Text
  /-- Between the parameters and what ends them. -/
  between : Text
  after : Text := []
  closed : Bool := false
  /-- The at-rule ends with a semicolon. -/
  semicolon : Bool := false
deriving DecidableEq, Repr, Inhabited

structure Declaration where
  before : Text
  prop : Text
  /-- The colon with the blanks around it. -/
  between : Text
  value : Text
  /-- Between the value and the semicolon. -/
  afterValue : Text
  semicolon : Bool
deriving DecidableEq, Repr, Inhabited

structure Comment where
  before : Text
  /-- The comment with its `/*` and `*/`. -/
  text : Text
deriving DecidableEq, Repr, Inhabited

/-- A statement of no other kind, kept as it is written. -/
structure Raw where
  before : Text
  text : Text
  semicolon : Bool
deriving DecidableEq, Repr, Inhabited

inductive Node where
  | rule (rule : Rule) (nodes : List Node)
  /-- An at-rule with a block. -/
  | atBlock (rule : AtRule) (nodes : List Node)
  /-- An at-rule without a block. -/
  | atStatement (rule : AtRule)
  | declaration (declaration : Declaration)
  | comment (comment : Comment)
  | raw (raw : Raw)
deriving Repr, Inhabited

/-- The statements of a text and the space after the last one. -/
structure Sheet where
  nodes : List Node := []
  after : Text := []
deriving Repr, Inhabited

mutual
def Node.same : Node → Node → Bool
  | .rule r ns, .rule s ms => decide (r = s) && sameNodes ns ms
  | .atBlock r ns, .atBlock s ms => decide (r = s) && sameNodes ns ms
  | .atStatement r, .atStatement s => decide (r = s)
  | .declaration d, .declaration e => decide (d = e)
  | .comment c, .comment d => decide (c = d)
  | .raw r, .raw s => decide (r = s)
  | _, _ => false

def sameNodes : List Node → List Node → Bool
  | [], [] => true
  | n :: ns, m :: ms => n.same m && sameNodes ns ms
  | _, _ => false
end

mutual
theorem Node.same_iff : ∀ n m : Node, n.same m = true ↔ n = m
  | .rule r ns, m => by cases m <;> simp [Node.same, sameNodes_iff]
  | .atBlock r ns, m => by cases m <;> simp [Node.same, sameNodes_iff]
  | .atStatement r, m => by cases m <;> simp [Node.same]
  | .declaration d, m => by cases m <;> simp [Node.same]
  | .comment c, m => by cases m <;> simp [Node.same]
  | .raw r, m => by cases m <;> simp [Node.same]

theorem sameNodes_iff : ∀ ns ms : List Node, sameNodes ns ms = true ↔ ns = ms
  | [], ms => by cases ms <;> simp [sameNodes]
  | n :: ns, ms => by cases ms <;> simp [sameNodes, Node.same_iff, sameNodes_iff]
end

instance : DecidableEq Node := fun n m => decidable_of_iff _ (Node.same_iff n m)

deriving instance DecidableEq for Sheet

/-- Some at-rules define keyframes: those named `keyframes` in any case, alone or after a
character that cannot belong to the same word. Two characters outside ASCII fold to letters of
the name, the Kelvin sign to `k` and the long s to `s`. -/
def isKeyframesName (name : Text) : Bool :=
  let fold (c : Char) : Char :=
    if c = '\u212a' then 'k' else if c = '\u017f' then 's' else lowerChar c
  let tail := name.drop (name.length - 9)
  tail.map fold == "keyframes".toList &&
    match (name.take (name.length - 9)).getLast? with
    | none => true
    | some c => !isWord c

def AtRule.isKeyframes (r : AtRule) : Bool := isKeyframesName r.name

/-- The property in lower case, without the vendor name between its first two hyphens. A custom
property starts with both hyphens and has none. -/
def Declaration.plainProp (d : Declaration) : Text :=
  let prop := lower d.prop
  match prop with
  | '-' :: rest =>
    match rest.dropWhile (· ≠ '-') with
    | _ :: plain => if rest.head? = some '-' then prop else plain
    | [] => prop
  | _ => prop

end StyleScope.Stylesheet
