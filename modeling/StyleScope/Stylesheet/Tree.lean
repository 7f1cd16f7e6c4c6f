import StyleScope.Stylesheet.Chunk

/-! # Reading stylesheets

Chunks are put together into a tree with a stack of open blocks. A closing brace closes the
innermost block; where none is open it is a raw statement of its own. Blocks still open when the
text ends are closed then, and only the innermost takes the space at the end.
-/
namespace StyleScope.Stylesheet

/-- A block whose closing brace has not come yet, with its statements so far, latest first. -/
inductive Frame where
  | rule (rule : Rule) (nodes : List Node)
  | atRule (rule : AtRule) (nodes : List Node)
deriving Repr

namespace Frame

def push (n : Node) : Frame → Frame
  | rule r ns => rule r (n :: ns)
  | atRule r ns => atRule r (n :: ns)

def close (after : Text) (closed : Bool) : Frame → Node
  | rule r ns => .rule { r with after, closed } ns.reverse
  | atRule r ns => .atBlock { r with after, closed } ns.reverse

end Frame

/-- A tree under construction: the open blocks, innermost first, and the statements outside all
blocks, latest first. -/
structure Growth where
  frames : List Frame := []
  nodes : List Node := []
deriving Repr

namespace Growth

def push (n : Node) (g : Growth) : Growth :=
  match g.frames with
  | [] => { g with nodes := n :: g.nodes }
  | f :: fs => { g with frames := f.push n :: fs }

def add (g : Growth) : Chunk → Growth
  | .node n => g.push n
  | .openRule r => { g with frames := .rule r [] :: g.frames }
  | .openAt r => { g with frames := .atRule r [] :: g.frames }
  | .close before =>
    match g.frames with
    | [] => g.push (.raw { before, text := ['}'], semicolon := false })
    | f :: fs => { g with frames := fs }.push (f.close before true)

/-- Closes open blocks around a statement that is the last of the innermost. -/
def closeAll (last : Node) : List Frame → Node
  | [] => last
  | f :: fs => closeAll ((f.push last).close [] false) fs

def finish (g : Growth) (after : Text) : Sheet :=
  match g.frames with
  | [] => { nodes := g.nodes.reverse, after }
  | f :: fs => { nodes := (closeAll (f.close after false) fs :: g.nodes).reverse }

end Growth

def parse? (t : Text) : Option Sheet :=
  (chunks? t).map fun p => (p.1.foldl Growth.add {}).finish p.2

end StyleScope.Stylesheet
