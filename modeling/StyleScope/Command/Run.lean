import StyleScope.Command.Arguments
import StyleScope.Glob.Search
import StyleScope.Selector.Listing

/-! # Running commands

A run takes the arguments, standard input and the file tree to what is written and to an exit
code: 0 if all went well, 1 if a command failed, 2 if the command line was refused. A run that
never ends has no outcome.
-/
namespace StyleScope.Command
open Files Selector

/-- The libraries that the program runs with. Tasks run one after the other. -/
def libraries : Libraries where
  glob := Glob.matcher
  collect tasks := tasks.mapM id

structure Outcome where
  exitCode : Nat
  stdout : Text := []
  stderr : Text := []
  tree : Tree
deriving Repr

def versionText : Text := "shadow-scope 0.1.0\n".toList

def usageText : Text :=
  "Usage: shadow-scope scope [OPTIONS] [INPUTS]...\n       shadow-scope tokenize SELECTOR\n".toList

def tokenizeText (selector : Text) : Text :=
  (Json.Value.array (listings (tokenize selector))).pretty ++ ['\n']

def Effect.outcome (e : Effect) : Outcome :=
  match e.failure with
  | none => { exitCode := 0, stdout := e.stdout, tree := e.tree }
  | some f =>
    { exitCode := 1, stdout := e.stdout, stderr := "Error: ".toList ++ f.report ++ ['\n'],
      tree := e.tree }

def Invocation.run (lib : Libraries) (t : Tree) (input : Content) : Invocation → Option Outcome
  | version => some { exitCode := 0, stdout := versionText, tree := t }
  | help => some { exitCode := 0, stdout := usageText, tree := t }
  | scope r => (scopeRun lib t input r).map Effect.outcome
  | tokenize selector => some { exitCode := 0, stdout := tokenizeText selector, tree := t }

def run (lib : Libraries) (t : Tree) (input : Content) (arguments : List Text) : Option Outcome :=
  match Invocation.ofArguments arguments with
  | .error _ => some { exitCode := 2, stderr := usageText, tree := t }
  | .ok invocation => invocation.run lib t input

def readsInput (arguments : List Text) : Bool :=
  match Invocation.ofArguments arguments with
  | .ok (.scope r) => r.inputs.isEmpty
  | _ => false

end StyleScope.Command
