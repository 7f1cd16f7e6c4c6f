import StyleScope.Basic

/-! # Scope contexts

A context says how selectors are confined to one component: its scope, the token that marks its
elements, the token that stands for its host, and the compound parts of a selector that are
marked. A blank scope is no scope.
-/
namespace StyleScope.Scope
open Text

/-- The compound parts of a selector that receive the element token. -/
structure Parts where
  first : Bool := true
  last : Bool := true
  /-- The parts between the first and the last. -/
  interior : Bool := false
deriving DecidableEq, Repr, Inhabited

namespace Parts

def all : Parts := ⟨true, true, true⟩

/-- Parts from a set of bits: 1 for the first, 2 for the last, 4 for those between. -/
def ofBits (n : Nat) : Parts := ⟨n.testBit 0, n.testBit 1, n.testBit 2⟩

def toBits (p : Parts) : Nat := p.first.toNat + 2 * p.last.toNat + 4 * p.interior.toNat

def selects (p : Parts) (k n : Nat) : Bool :=
  (k = 0 && p.first) || (k = n - 1 && p.last) || (k ≠ 0 && k ≠ n - 1 && p.interior)

end Parts

structure Context where
  scope : Text
  /-- Marks an element of the component. -/
  elementToken : Text
  /-- Stands for the host of the component. -/
  hostToken : Text
  parts : Parts := {}
deriving DecidableEq, Repr, Inhabited

inductive ContextError where
  | missingScope
deriving DecidableEq, Repr

def ContextError.message : ContextError → Text
  | missingScope => "component scope must be provided".toList

def defaultElementToken (scope : Text) : Text := '[' :: scope ++ [']']

def defaultHostToken (scope : Text) : Text := '[' :: scope ++ "-host]".toList

/-- The text with every `{scope}` replaced; what is put in is not searched again. -/
def fillTemplate (scope : Text) : Text → Text
  | '{' :: 's' :: 'c' :: 'o' :: 'p' :: 'e' :: '}' :: r => scope ++ fillTemplate scope r
  | c :: r => c :: fillTemplate scope r
  | [] => []

namespace Context

/-- The context of a scope with the default tokens. -/
def ofScope (scope : Text) : Except ContextError Context :=
  if isBlankText scope then .error .missingScope
  else
    .ok { scope, elementToken := defaultElementToken scope, hostToken := defaultHostToken scope }

/-- Marks elements with a template instead. -/
def withElementTemplate (template : Text) (c : Context) : Context :=
  { c with elementToken := fillTemplate c.scope template }

/-- Stands for the host with a template instead. -/
def withHostTemplate (template : Text) (c : Context) : Context :=
  { c with hostToken := fillTemplate c.scope template }

end Context
end StyleScope.Scope
