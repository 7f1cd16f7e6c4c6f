import StyleScope.Main
import StyleScope.Proofs.Scope.Frame
import StyleScope.Proofs.Scope.Placement
import StyleScope.Proofs.Scope.Rereading
import StyleScope.Proofs.Animation.Renaming
import StyleScope.Proofs.Scope.Members
import StyleScope.Proofs.Selector.CommentBodies
import StyleScope.Proofs.Stylesheet.Chunks
import StyleScope.Proofs.Stylesheet.Progress
import StyleScope.Proofs.Stylesheet.Blocks
import StyleScope.Proofs.Stylesheet.Canonical
import StyleScope.Proofs.Stylesheet.Composition
import StyleScope.Proofs.Stylesheet.Insertion
import StyleScope.Proofs.Animation.Padding
import StyleScope.Proofs.Scope.Statements
import StyleScope.Proofs.Scope.ScopedText
import StyleScope.Proofs.Scope.Heads
import StyleScope.Proofs.Scope.Order
import StyleScope.Proofs.Scope.Expansion
import StyleScope.Proofs.Animation.Tokens
import StyleScope.Proofs.Animation.Priority
import StyleScope.Proofs.Animation.Isolation
import StyleScope.Proofs.Files.Following
import StyleScope.Proofs.Command.Failures
import StyleScope.Proofs.Command.Outputs
import StyleScope.Proofs.Animation.Preludes
import StyleScope.Proofs.Glob.Inputs
import StyleScope.Proofs.Scope.Content
import StyleScope.Proofs.Scope.Lists
import StyleScope.Proofs.Selector.Shapes
import StyleScope.Proofs.Animation.Shorthand
import StyleScope.Proofs.Selector.Malformed
import StyleScope.Proofs.Animation.GlobalNames
import StyleScope.Proofs.Options.Layers
import StyleScope.Proofs.Scope.CustomProperties
import StyleScope.Proofs.Offsets.Statements
