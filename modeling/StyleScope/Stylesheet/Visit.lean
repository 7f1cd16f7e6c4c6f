import StyleScope.Stylesheet.Basic

/-! # Walking over stylesheets

Statements are visited in the order of the text, a block before the statements in it. A rule is
visited with a flag that tells whether it lies under an at-rule that defines keyframes, for there
selectors are stages of an animation and select nothing.

A `Pass` changes statements on the way. It never changes the shape of the tree.
-/
namespace StyleScope.Stylesheet

/-- A statement met on the way. -/
inductive Event where
  | rule (rule : Rule) (inKeyframes : Bool)
  | atRule (rule : AtRule)
  | declaration (declaration : Declaration)
deriving DecidableEq, Repr

mutual
def Node.events (inKeyframes : Bool) : Node → List Event
  | .rule r nodes => .rule r inKeyframes :: nodesEvents inKeyframes nodes
  | .atBlock r nodes => .atRule r :: nodesEvents (inKeyframes || r.isKeyframes) nodes
  | .atStatement r => [.atRule r]
  | .declaration d => [.declaration d]
  | .comment _ => []
  | .raw _ => []

def nodesEvents (inKeyframes : Bool) : List Node → List Event
  | [] => []
  | n :: ns => n.events inKeyframes ++ nodesEvents inKeyframes ns
end

def Sheet.events (s : Sheet) : List Event := nodesEvents false s.nodes

/-- What becomes of each kind of statement. -/
structure Pass where
  rule : Rule → Bool → Rule := fun r _ => r
  atRule : AtRule → AtRule := id
  declaration : Declaration → Declaration := id

mutual
def Node.map (p : Pass) (inKeyframes : Bool) : Node → Node
  | .rule r nodes => .rule (p.rule r inKeyframes) (mapNodes p inKeyframes nodes)
  | .atBlock r nodes => .atBlock (p.atRule r) (mapNodes p (inKeyframes || r.isKeyframes) nodes)
  | .atStatement r => .atStatement (p.atRule r)
  | .declaration d => .declaration (p.declaration d)
  | .comment c => .comment c
  | .raw r => .raw r

def mapNodes (p : Pass) (inKeyframes : Bool) : List Node → List Node
  | [] => []
  | n :: ns => n.map p inKeyframes :: mapNodes p inKeyframes ns
end

def Sheet.map (p : Pass) (s : Sheet) : Sheet := { s with nodes := mapNodes p false s.nodes }

end StyleScope.Stylesheet
