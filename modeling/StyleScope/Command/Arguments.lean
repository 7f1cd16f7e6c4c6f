import StyleScope.Command.Compile

/-! # Command lines

The program has two commands, `scope` and `tokenize`. An option is written `--name value`,
`--name=value`, `-n value`, `-nvalue` or `-n=value`, anywhere among the arguments, and at most
once. A value in an argument of its own starts with no hyphen, unless it is a lone one, which is an
argument like any other. After `--` there are no more options. Names of options and commands are
written out in full.
-/
namespace StyleScope.Command

/-- The options of the command `scope`. -/
inductive Flag where
  | scope
  | component
  | elementToken
  | hostToken
  | options
  | allParts
  | outDir
deriving DecidableEq, Repr

namespace Flag

def ofName? (name : Text) : Option Flag :=
  [("scope", scope), ("component", component), ("element-token", elementToken),
    ("host-token", hostToken), ("options", options), ("all-parts", allParts),
    ("out-dir", outDir)].lookup (String.ofList name)

def ofLetter? (c : Char) : Option Flag :=
  [('s', scope), ('c', component), ('o', outDir)].lookup c

def takesValue : Flag → Bool
  | allParts => false
  | _ => true

/-- Options that name a file or directory refuse an empty value. -/
def accepts (value : Text) : Flag → Bool
  | options | outDir => !value.isEmpty
  | _ => true

end Flag

inductive Invocation where
  | version
  | help
  | scope (request : Request)
  | tokenize (selector : Text)
deriving Repr

/-- Why a command line is refused: nothing comes of it in any case. -/
inductive UsageError where
  | missingCommand
  | unknownCommand (name : Text)
  | unknownOption (argument : Text)
  | missingValue (flag : Flag)
  | unwantedValue (flag : Flag)
  | repeated (flag : Flag)
  | emptyValue (flag : Flag)
  | missingArgument
  | unexpectedArgument (argument : Text)
deriving Repr

/-- An argument taken for what it looks like. -/
inductive Word where
  /-- The two hyphens that end the options. -/
  | endOfOptions
  /-- An option by its name, with what follows an equals sign. -/
  | long (name : Text) (value : Option Text)
  /-- Options by their letters. -/
  | short (letters : Text)
  | plain (text : Text)
deriving DecidableEq, Repr

def Word.ofText (t : Text) : Word :=
  match t with
  | ['-', '-'] => endOfOptions
  | '-' :: '-' :: r =>
    match r.dropWhile (· ≠ '=') with
    | [] => long r none
    | _ :: value => long (r.takeWhile (· ≠ '=')) (some value)
  | ['-'] => plain t
  | '-' :: r => short r
  | _ => plain t

/-- What has been read of a command line for `scope`. -/
structure Progress where
  values : List (Flag × Text) := []
  inputs : List Text := []
deriving Repr

/-- What the options of an argument come to. -/
inductive Reading where
  /-- The option is complete. -/
  | done (progress : Progress)
  /-- The value of an option is still to come. -/
  | pending (flag : Flag)
  | help

namespace Progress

def set (p : Progress) (flag : Flag) (value : Text) : Except UsageError Progress :=
  if (p.values.lookup flag).isSome then .error (.repeated flag)
  else if !flag.accepts value then .error (.emptyValue flag)
  else .ok { p with values := (flag, value) :: p.values }

/-- Takes an option with a value that is attached or still to come. -/
def take (p : Progress) (flag : Flag) (attached : Option Text) : Except UsageError Reading :=
  match flag.takesValue, attached with
  | true, some value => (p.set flag value).map .done
  | true, none => .ok (.pending flag)
  | false, some _ => .error (.unwantedValue flag)
  | false, none => (p.set flag []).map .done

def takeLong (p : Progress) (name : Text) (value : Option Text) : Except UsageError Reading :=
  match Flag.ofName? name with
  | some flag => p.take flag value
  | none =>
    if name = "help".toList && value.isNone then .ok .help
    else .error (.unknownOption name)

/-- Takes an option by its letter and the rest of its argument. -/
def takeShort (p : Progress) (letters : Text) : Except UsageError Reading :=
  match letters with
  | [] => .error (.unknownOption letters)
  | c :: rest =>
    match Flag.ofLetter? c with
    | some flag =>
      p.take flag (match rest with
        | [] => none
        | '=' :: value => some value
        | _ => some rest)
    | none => if c = 'h' then .ok .help else .error (.unknownOption letters)

def request (p : Progress) : Request where
  optionsFile := p.values.lookup .options
  overrides :=
    { scope := p.values.lookup .scope
      component := p.values.lookup .component
      elementToken := p.values.lookup .elementToken
      hostToken := p.values.lookup .hostToken
      scopeAllParts := (p.values.lookup .allParts).isSome }
  inputs := p.inputs
  outDir := p.values.lookup .outDir

end Progress

/-- Reads the arguments of `scope`; an option may still wait for its value. -/
def readScope (p : Progress) (waiting : Option Flag) : List Text → Except UsageError Invocation
  | [] =>
    match waiting with
    | some flag => .error (.missingValue flag)
    | none => .ok (.scope p.request)
  | a :: rest =>
    match Word.ofText a, waiting with
    | .plain text, some flag => do readScope (← p.set flag text) none rest
    | _, some flag => .error (.missingValue flag)
    | .plain text, none => readScope { p with inputs := p.inputs ++ [text] } none rest
    | .endOfOptions, none => .ok (.scope { p with inputs := p.inputs ++ rest }.request)
    | .long name value, none => do
      match ← p.takeLong name value with
      | .done p => readScope p none rest
      | .pending flag => readScope p (some flag) rest
      | .help => return .help
    | .short letters, none => do
      match ← p.takeShort letters with
      | .done p => readScope p none rest
      | .pending flag => readScope p (some flag) rest
      | .help => return .help

def Word.isHelp : Word → Bool
  | .long name none => name = "help".toList
  | .short ('h' :: _) => true
  | _ => false

/-- Reads the arguments of `tokenize`, after the selector if it is there. -/
def readTokenize (selector : Option Text) : List Text → Except UsageError Invocation
  | [] =>
    match selector with
    | some s => .ok (.tokenize s)
    | none => .error .missingArgument
  | a :: rest =>
    match Word.ofText a, selector with
    | .plain text, none => readTokenize (some text) rest
    | .plain text, some _ => .error (.unexpectedArgument text)
    | .endOfOptions, _ =>
      match selector.toList ++ rest with
      | [] => .error .missingArgument
      | [s] => .ok (.tokenize s)
      | _ :: extra :: _ => .error (.unexpectedArgument extra)
    | w, _ => if w.isHelp then .ok .help else .error (.unknownOption a)

/-- Reads the arguments of `help`: nothing, or the name of a command. -/
def readHelp : List Text → Except UsageError Invocation
  | [] => .ok .help
  | [name] =>
    if name = "scope".toList || name = "tokenize".toList || name = "help".toList then .ok .help
    else .error (.unknownCommand name)
  | _ :: name :: _ => .error (.unknownCommand name)

def Invocation.ofArguments : List Text → Except UsageError Invocation
  | [] => .error .missingCommand
  | a :: rest =>
    match Word.ofText a with
    | .plain name =>
      if name = "scope".toList then readScope {} none rest
      else if name = "tokenize".toList then readTokenize none rest
      else if name = "help".toList then readHelp rest
      else .error (.unknownCommand name)
    | .long name none =>
      if name = "version".toList then .ok .version
      else if name = "help".toList then .ok .help
      else .error (.unknownOption a)
    | .short ('V' :: _) => .ok .version
    | .short ('h' :: _) => .ok .help
    | .endOfOptions => .error .missingCommand
    | _ => .error (.unknownOption a)

end StyleScope.Command
