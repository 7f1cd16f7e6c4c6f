import StyleScope.Files.Directory
import StyleScope.Glob.Expand
import StyleScope.Options.Document
import StyleScope.Scope.Sheet

/-! # Compiling stylesheets

Stylesheets are read from files or from standard input, scoped, and written to a directory or to
standard output. Everything is read before anything is written: `compile` has no effect on the
file tree, and `writeOutputs` is the only step that has. Files written before one that fails stay.

A stylesheet that is never parsed to its end keeps a run from ever ending. Such a run has no result.
-/
namespace StyleScope.Command
open Files Glob Scope

inductive Failure where
  | readOptions (path : Text) (cause : FileError)
  | parseOptions (path : Text) (cause : Options.DocumentError)
  | expand (cause : ExpandError)
  | context (cause : ContextError)
  | readInput (cause : FileError)
  | readFile (path : Text) (cause : FileError)
  | createDirectory (path : Text) (cause : FileError)
  | writeFile (path : Text) (cause : FileError)
deriving Repr

namespace Failure

def message : Failure → Text
  | readOptions path _ => "failed to read options file ".toList ++ path
  | parseOptions path _ => "failed to parse options file ".toList ++ path
  | expand (.pattern pattern _) => "invalid glob pattern `".toList ++ pattern ++ ['`']
  | expand (.entry cause) => cause.message
  | context _ => "cannot scope stylesheets".toList
  | readInput _ => "failed to read stdin".toList
  | readFile path _ => "failed to read ".toList ++ path
  | createDirectory path _ => "failed to create ".toList ++ path
  | writeFile path _ => "failed to write ".toList ++ path

def causes : Failure → List Text
  | readOptions _ cause | readInput cause | readFile _ cause => [cause.message]
  | createDirectory _ cause | writeFile _ cause => [cause.message]
  | parseOptions _ cause => [cause.message, cause.cause]
  | expand (.pattern _ cause) => [cause.message]
  | expand (.entry _) => []
  | context cause => [cause.message]

def report (f : Failure) : Text := ": ".toList.intercalate (f.message :: f.causes)

end Failure

structure Request where
  optionsFile : Option Text := none
  /-- Options that win over those of the file. -/
  overrides : Options := {}
  /-- Patterns of input files; standard input is read if there are none. -/
  inputs : List Text := []
  /-- Where to write; standard output if absent. -/
  outDir : Option Text := none
deriving Repr, Inhabited

/-- A scoped stylesheet; the source is absent for standard input. -/
structure Output where
  source : Option Text
  css : Text
deriving DecidableEq, Repr

def loadOptions (t : Tree) (path : Text) : Except Failure Options :=
  match t.read path with
  | .error e => .error (.readOptions path e)
  | .ok content =>
    match Options.ofDocument content with
    | .error e => .error (.parseOptions path e)
    | .ok o => .ok o

def resolveOptions (t : Tree) (r : Request) : Except Failure Options :=
  match r.optionsFile with
  | none => .ok (Options.merge {} r.overrides)
  | some path => (loadOptions t path).map (·.merge r.overrides)

def contextOf (o : Options) : Except Failure Context := o.toContext.mapError .context

/-- A part of a run, which can fail and need not end. -/
abbrev Task (α : Type) := ExceptT Failure Option α

/-- What is left to libraries. -/
structure Libraries where
  glob : Glob.Library
  /-- Runs tasks at the same time and puts their results together. -/
  collect : List (Task Output) → Task (List Output)

def expandInputs (glob : Glob.Library) (t : Tree) (patterns : List Text) :
    Except Failure (List Text) :=
  (expand glob t patterns).mapError .expand

def compileText (ctx : Context) (source : Option Text) (css : Text) : Task Output := do
  return ⟨source, ← scopeText? ctx css⟩

def compileFile (t : Tree) (ctx : Context) (path : Text) : Task Output := do
  let css ← (t.read path).mapError (Failure.readFile path)
  compileText ctx (some path) css

/-- Scopes files; a missing scope is found before any of them is read. -/
def compileFiles (lib : Libraries) (t : Tree) (o : Options) (files : List Text) :
    Task (List Output) := do
  let ctx ← contextOf o
  lib.collect (files.map (compileFile t ctx))

def compileInput (o : Options) (input : Content) : Task (List Output) := do
  let css ← input.read.mapError Failure.readInput
  let ctx ← contextOf o
  return [← compileText ctx none css]

def compile (lib : Libraries) (t : Tree) (input : Content) (r : Request) : Task (List Output) := do
  let o ← resolveOptions t r
  if r.inputs.isEmpty then compileInput o input
  else compileFiles lib t o (← expandInputs lib.glob t r.inputs)

/-- What a run leaves behind. -/
structure Effect where
  tree : Tree
  stdout : Text := []
  failure : Option Failure := none
deriving Repr

/-- The file an output is written to. -/
def target (dir : Text) (o : Output) : Text :=
  Path.join dir ((o.source.bind Path.fileName?).getD "stdin.css".toList)

/-- Writes outputs to a directory that exists, up to the first that fails. -/
def writeFiles (dir : Text) (t : Tree) : List Output → Effect
  | [] => { tree := t }
  | o :: rest =>
    match t.write (target dir o) o.css with
    | .error e => { tree := t, failure := some (.writeFile (target dir o) e) }
    | .ok t => writeFiles dir t rest

/-- Writes outputs to a directory, which is made first, or to standard output. -/
def writeOutputs (t : Tree) (outDir : Option Text) (outputs : List Output) : Effect :=
  match outDir with
  | none => { tree := t, stdout := outputs.flatMap (·.css) }
  | some dir =>
    let made := t.createDirectory dir
    match made.failure with
    | some e => { tree := made.tree, failure := some (.createDirectory dir e) }
    | none => writeFiles dir made.tree outputs

/-- Compiles a request and writes its outputs. -/
def scopeRun (lib : Libraries) (t : Tree) (input : Content) (r : Request) : Option Effect :=
  (compile lib t input r).run.map fun
    | .error f => { tree := t, failure := some f }
    | .ok outputs => writeOutputs t r.outDir outputs

end StyleScope.Command
