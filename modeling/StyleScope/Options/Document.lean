import StyleScope.Json.Value
import StyleScope.Json.Reader
import StyleScope.Options.Basic
import StyleScope.Text.Hidden

/-! # Option documents

Options are written as a JSON document: an object with named members, an array of the same values
in order, or a bare string that names the component. Members with other names are ignored. A
value of the wrong type is an error; the first one in the document is reported.
-/
namespace StyleScope.Options
open Text Decimal Json

inductive Expected where
  | string
  | boolean
  | options
deriving DecidableEq, Repr

inductive DocumentError where
  /-- The text is no JSON document. -/
  | unreadable
  /-- A value of another type than expected. -/
  | mismatch (found : Value) (expected : Expected)
  /-- An array with more values than there are options. -/
  | tooMany (count : Nat)
deriving Repr

/-- A value as errors name it. -/
def describe : Value → Text
  | .null => "null".toList
  | .bool b => "boolean `".toList ++ (if b then "true".toList else "false".toList) ++ ['`']
  | .number (.binary minus x) =>
    "floating point `".toList ++ (Number.binary minus x).text ++ ['`']
  | .number n => "integer `".toList ++ n.text ++ ['`']
  | .string t => "string ".toList ++ literal t
  | .array _ => "sequence".toList
  | .object _ => "map".toList

def Expected.text : Expected → Text
  | string => "a string".toList
  | boolean => "a boolean".toList
  | options => "struct ScopeOptions".toList

namespace DocumentError

/-- The cause on its own. How unreadable text is unreadable is not told. -/
def cause : DocumentError → Text
  | unreadable => "not a JSON document".toList
  | mismatch found expected =>
    "invalid type: ".toList ++ describe found ++ ", expected ".toList ++ expected.text
  | tooMany count =>
    "invalid length ".toList ++ natText count ++ ", expected fewer elements in array".toList

def message (e : DocumentError) : Text := "invalid scope options: ".toList ++ e.cause

end DocumentError

/-- A text that may be left open. -/
def optionalText : Value → Except DocumentError (Option Text)
  | .null => .ok none
  | .string t => .ok (some t)
  | v => .error (.mismatch v .string)

def flag : Value → Except DocumentError Bool
  | .bool b => .ok b
  | v => .error (.mismatch v .boolean)

/-- Sets the option with the given name; other names set nothing. -/
def setMember (o : Options) (name : Text) (v : Value) : Except DocumentError Options :=
  if name = "scope".toList then do return { o with scope := ← optionalText v }
  else if name = "component".toList then do return { o with component := ← optionalText v }
  else if name = "elementToken".toList then do return { o with elementToken := ← optionalText v }
  else if name = "hostToken".toList then do return { o with hostToken := ← optionalText v }
  else if name = "scopeAllParts".toList then do return { o with scopeAllParts := ← flag v }
  else .ok o

def memberNames : List Text :=
  (["scope", "component", "elementToken", "hostToken", "scopeAllParts"] : List String).map
    String.toList

/-- Sets the options with the given names and values, from left to right. -/
def setMembers (o : Options) : List (Text × Value) → Except DocumentError Options
  | [] => .ok o
  | (name, v) :: rest => do setMembers (← setMember o name v) rest

def ofValue : Value → Except DocumentError Options
  | .string name => .ok (ofComponent name)
  | .object members => setMembers {} members
  | .array values => do
    let o ← setMembers {} (memberNames.zip values)
    if memberNames.length < values.length then .error (.tooMany values.length) else .ok o
  | v => .error (.mismatch v .options)

def ofDocument (t : Text) : Except DocumentError Options :=
  match read? t with
  | none => .error .unreadable
  | some v => ofValue v

end StyleScope.Options
