import StyleScope.Scope.Context

/-! # Scope options

Options are given in layers, a file and the command line, and each layer may leave values open.
Resolving the merged options gives a scope context. Without a scope the name of the component is
used, marked by an underscore; the component also stands for its own host unless a host token is
given. Values that are blank count as absent here.
-/
namespace StyleScope
open Text Scope

structure Options where
  scope : Option Text := none
  component : Option Text := none
  /-- Template of the element token. -/
  elementToken : Option Text := none
  /-- Template of the host token. -/
  hostToken : Option Text := none
  /-- Mark every compound part instead of the first and the last. -/
  scopeAllParts : Bool := false
deriving DecidableEq, Repr, Inhabited

namespace Options

def ofComponent (name : Text) : Options := { component := some name }

/-- The options with a layer on top, whose values win. -/
def merge (base layer : Options) : Options where
  scope := layer.scope.or base.scope
  component := layer.component.or base.component
  elementToken := layer.elementToken.or base.elementToken
  hostToken := layer.hostToken.or base.hostToken
  scopeAllParts := base.scopeAllParts || layer.scopeAllParts

/-- A value that is present and not blank. -/
def present (value : Option Text) : Option Text := value.filter fun t => !isBlankText t

/-- The scope, or the component behind an underscore. -/
def resolvedScope (o : Options) : Option Text :=
  (present o.scope).or ((present o.component).map ('_' :: ·))

def elementTemplate : Text := "[\x7bscope\x7d]".toList

def hostTemplate : Text := "[\x7bscope\x7d-host]".toList

/-- The host token: from its template, or the component itself, or from the default template. -/
def resolvedHost (o : Options) (scope : Text) : Text :=
  match o.hostToken, present o.component with
  | some template, _ => fillTemplate scope template
  | none, some component => component
  | none, none => fillTemplate scope hostTemplate

def toContext (o : Options) : Except ContextError Context :=
  match o.resolvedScope with
  | none => .error .missingScope
  | some scope =>
    (Context.ofScope scope).map fun c =>
      { c with
        elementToken := fillTemplate scope (o.elementToken.getD elementTemplate)
        hostToken := o.resolvedHost scope
        parts := if o.scopeAllParts then Parts.all else c.parts }

end Options
end StyleScope
