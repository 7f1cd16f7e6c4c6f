/-! # Texts and entries

Text is a list of Unicode scalar values. A stylesheet sets its tokens apart with *space*: blank,
tab, line feed, carriage return and form feed. Trimming removes *blanks*, the wider Unicode
property `White_Space`. Every space is blank but not every blank is space, so a run of blanks can
be a statement of its own; the two classes are never interchanged below.

Names are written in letters, digits, `_`, `-` and every character outside ASCII; digits cannot
start one. The case of letters matters only inside ASCII.

Lengths and positions are counted in bytes of the UTF-8 encoding. A position is inside a text only
when it falls between two characters.

Entries are pairs in which each key has one value. A key stands where it was first entered;
entering it again replaces its value in place.
-/
namespace StyleScope

abbrev Text := List Char

namespace Text

/-! ### White space -/

/-- White space of the stylesheet grammar. -/
def isSpace (c : Char) : Bool :=
  c = ' ' || c = '\t' || c = '\n' || c = '\r' || c = '\x0c'

/-- The Unicode property `White_Space`. -/
def isBlank (c : Char) : Bool :=
  (0x09 ≤ c.toNat && c.toNat ≤ 0x0d) || c.toNat = 0x20 || c.toNat = 0x85 || c.toNat = 0xa0 ||
    c.toNat = 0x1680 || (0x2000 ≤ c.toNat && c.toNat ≤ 0x200a) || c.toNat = 0x2028 ||
    c.toNat = 0x2029 || c.toNat = 0x202f || c.toNat = 0x205f || c.toNat = 0x3000

def leadingBlanks (t : Text) : Text := t.takeWhile isBlank

def trimStart (t : Text) : Text := t.dropWhile isBlank

def trailingBlanks (t : Text) : Text := (t.reverse.takeWhile isBlank).reverse

def trimEnd (t : Text) : Text := (t.reverse.dropWhile isBlank).reverse

def trim (t : Text) : Text := trimStart (trimEnd t)

@[simp] theorem leadingBlanks_append_trimStart (t : Text) :
    leadingBlanks t ++ trimStart t = t :=
  List.takeWhile_append_dropWhile

@[simp] theorem trimEnd_append_trailingBlanks (t : Text) :
    trimEnd t ++ trailingBlanks t = t := by
  rw [trimEnd, trailingBlanks, ← List.reverse_append, List.takeWhile_append_dropWhile,
    List.reverse_reverse]

def isBlankText (t : Text) : Bool := t.all isBlank

/-! ### Character classes -/

def isDigit (c : Char) : Bool := '0' ≤ c && c ≤ '9'

def isLetter (c : Char) : Bool := ('a' ≤ c && c ≤ 'z') || ('A' ≤ c && c ≤ 'Z')

def isNewline (c : Char) : Bool := c = '\n' || c = '\r'

def isQuote (c : Char) : Bool := c = '\'' || c = '"'

/-- The child and sibling combinators. -/
def isCombinator (c : Char) : Bool := c = '>' || c = '+' || c = '~'

def isNameStart (c : Char) : Bool := isLetter c || c = '_' || c = '-' || 128 ≤ c.toNat

def isNamePart (c : Char) : Bool := isNameStart c || isDigit c

/-- The lower-case form of an ASCII letter; any other character as it is. -/
def lowerChar (c : Char) : Char :=
  if 'A' ≤ c && c ≤ 'Z' then Char.ofNat (c.toNat + 32) else c

def lower (t : Text) : Text := t.map lowerChar

/-- Equality up to the case of ASCII letters. -/
def sameName (a b : Text) : Bool := lower a == lower b

/-! ### Byte offsets -/

def byteLength : Text → Nat
  | [] => 0
  | c :: r => c.utf8Size + byteLength r

/-- The text from a byte offset on, if the offset is a character boundary. -/
def dropBytes? : Text → Nat → Option Text
  | t, 0 => some t
  | [], _ + 1 => none
  | c :: r, n + 1 => if c.utf8Size ≤ n + 1 then dropBytes? r (n + 1 - c.utf8Size) else none

end Text

namespace Entries
variable {κ α : Type} [DecidableEq κ]

def insert (key : κ) (value : α) : List (κ × α) → List (κ × α)
  | [] => [(key, value)]
  | (k, v) :: rest => if k = key then (k, value) :: rest else (k, v) :: insert key value rest

/-- The entries of a list of pairs, entered from left to right. -/
def ofList (pairs : List (κ × α)) : List (κ × α) :=
  pairs.foldl (fun entries p => insert p.1 p.2 entries) []

end Entries
end StyleScope
