import StyleScope.Decimal.Shortest

/-! # Structured data and its text

The values of a JSON document. The members of an object stand in the order in which their names
first occur. A number written without a fraction or an exponent stays whole as long as it fits
into 64 bits, a negative one signed; any other number is binary, and so is a negative zero.

Values are written over several lines, each level indented by two more spaces. Empty arrays and
objects stay on one line. In strings only quotes, backslashes and control characters are escaped.
-/
namespace StyleScope.Json
open Decimal

inductive Number where
  | natural (n : Nat)
  /-- The number `-n`. -/
  | negative (n : Nat)
  /-- A binary number and whether it has a minus sign. -/
  | binary (minus : Bool) (magnitude : Binary)
deriving DecidableEq, Repr, Inhabited

inductive Value where
  | null
  | bool (b : Bool)
  | number (n : Number)
  | string (t : Text)
  | array (items : List Value)
  | object (members : List (Text × Value))
deriving Repr, Inhabited

def stringCharText (c : Char) : Text :=
  if c = '"' then ['\\', '"']
  else if c = '\\' then ['\\', '\\']
  else if c = '\n' then ['\\', 'n']
  else if c = '\r' then ['\\', 'r']
  else if c = '\t' then ['\\', 't']
  else if c = '\x08' then ['\\', 'b']
  else if c = '\x0c' then ['\\', 'f']
  else if c.toNat < 0x20 then
    "\\u00".toList ++ (if c.toNat < 0x10 then ['0'] else []) ++ Nat.toDigits 16 c.toNat
  else [c]

def stringText (t : Text) : Text := '"' :: t.flatMap stringCharText ++ ['"']

/-- Binary numbers are written out below ten to the 16 and from one hundred-thousandth on. -/
def numberStyle : Style := ⟨16, -4⟩

def Number.text : Number → Text
  | natural n => natText n
  | negative n => '-' :: natText n
  | binary minus x => (if minus then ['-'] else []) ++ x.text numberStyle

/-- A new line, indented to a level. -/
def lineText (level : Nat) : Text := '\n' :: List.replicate (2 * level) ' '

mutual
/-- A value whose own lines are at a level, in front of a text. -/
def Value.prettyBefore (tail : Text) (level : Nat) : Value → Text
  | .null => "null".toList ++ tail
  | .bool true => "true".toList ++ tail
  | .bool false => "false".toList ++ tail
  | .number n => n.text ++ tail
  | .string t => stringText t ++ tail
  | .array [] => '[' :: ']' :: tail
  | .array (v :: vs) =>
    '[' :: lineText (level + 1) ++
      v.prettyBefore (itemsBefore (lineText level ++ ']' :: tail) (level + 1) vs) (level + 1)
  | .object [] => '{' :: '}' :: tail
  | .object ((name, v) :: members) =>
    '{' :: lineText (level + 1) ++ stringText name ++ ':' :: ' ' ::
      v.prettyBefore (membersBefore (lineText level ++ '}' :: tail) (level + 1) members) (level + 1)

def itemsBefore (tail : Text) (level : Nat) : List Value → Text
  | [] => tail
  | v :: vs => ',' :: lineText level ++ v.prettyBefore (itemsBefore tail level vs) level

def membersBefore (tail : Text) (level : Nat) : List (Text × Value) → Text
  | [] => tail
  | (name, v) :: members =>
    ',' :: lineText level ++ stringText name ++ ':' :: ' ' ::
      v.prettyBefore (membersBefore tail level members) level
end

/-- A value over several lines. -/
def Value.pretty (v : Value) : Text := v.prettyBefore [] 0

end StyleScope.Json
