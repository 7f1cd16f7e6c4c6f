import StyleScope.Animation.Rename
import StyleScope.Scope.Selector
import StyleScope.Stylesheet.Printer
import StyleScope.Stylesheet.Tree

/-! # Scoping stylesheets

A stylesheet is confined to a component by scoping the selectors of its rules, other than those
under keyframes, and by renaming its keyframes.
-/
namespace StyleScope.Scope
open Stylesheet Animation

structure Summary where
  /-- The number of rules whose selectors were scoped. -/
  rules : Nat
  /-- The keyframes that were renamed. -/
  animations : Table
deriving DecidableEq, Repr

/-- A rule with its selectors scoped, unless it is a stage of keyframes. -/
def scopeRule (ctx : Context) (r : Rule) (inKeyframes : Bool) : Rule :=
  if inKeyframes then r else { r with selector := scopeList ctx r.selector }

def scopeSelectors (ctx : Context) (s : Sheet) : Sheet := s.map { rule := scopeRule ctx }

def ruleCount (s : Sheet) : Nat :=
  s.events.countP fun
    | .rule _ inKeyframes => !inKeyframes
    | _ => false

def scopeSheet (ctx : Context) (s : Sheet) : Sheet × Summary :=
  let p := renameSheet ctx.scope (scopeSelectors ctx s)
  (p.1, { rules := ruleCount s, animations := p.2 })

/-- The text of a stylesheet confined to a component, if the text can be read. -/
def scopeText? (ctx : Context) (css : Text) : Option Text :=
  (parse? css).map fun s => (scopeSheet ctx s).1.text

end StyleScope.Scope
