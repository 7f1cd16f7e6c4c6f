import StyleScope.Basic
import StyleScope.Json.Number

/-! # Reading JSON

A document is one value with space around it. Strings hold no control characters and no unpaired
surrogates; arrays and objects nest at most 127 deep. A member name that occurs again replaces the
value of the first occurrence.
-/
namespace StyleScope.Json
open Text

/-- White space between tokens. -/
def isGap (c : Char) : Bool := c = ' ' || c = '\t' || c = '\n' || c = '\r'

def skipGap (t : Text) : Text := t.dropWhile isGap

def hexValue? (c : Char) : Option Nat :=
  if isDigit c then some (digitValue c)
  else if 'a' ≤ c && c ≤ 'f' then some (c.toNat - 'a'.toNat + 10)
  else if 'A' ≤ c && c ≤ 'F' then some (c.toNat - 'A'.toNat + 10)
  else none

def unit? (a b c d : Char) : Option Nat := do
  return (((← hexValue? a) * 16 + (← hexValue? b)) * 16 + (← hexValue? c)) * 16 + (← hexValue? d)

def isHighSurrogate (n : Nat) : Bool := 0xd800 ≤ n && n ≤ 0xdbff

def isLowSurrogate (n : Nat) : Bool := 0xdc00 ≤ n && n ≤ 0xdfff

def single? (n : Nat) : Option Char :=
  if isHighSurrogate n || isLowSurrogate n then none else some (Char.ofNat n)

def paired? (high low : Nat) : Option Char :=
  if isHighSurrogate high && isLowSurrogate low then
    some (Char.ofNat (0x10000 + (high - 0xd800) * 0x400 + (low - 0xdc00)))
  else none

/-- The character a letter stands for after a backslash. -/
def escaped? (c : Char) : Option Char :=
  if c = '"' || c = '\\' || c = '/' then some c
  else if c = 'b' then some '\x08'
  else if c = 'f' then some '\x0c'
  else if c = 'n' then some '\n'
  else if c = 'r' then some '\r'
  else if c = 't' then some '\t'
  else none

/-- The first character of a string's content and what follows it. -/
def stringChar? : Text → Option (Char × Text)
  | '\\' :: 'u' :: a :: b :: c :: d :: r => do
    let n ← unit? a b c d
    if isHighSurrogate n then
      match r with
      | '\\' :: 'u' :: e :: f :: g :: h :: r => return (← paired? n (← unit? e f g h), r)
      | _ => none
    else return (← single? n, r)
  | '\\' :: c :: r => do return (← escaped? c, r)
  | c :: r => if c.toNat < 0x20 || c = '\\' then none else some (c, r)
  | [] => none

theorem length_stringChar?_rest {t r : Text} {c : Char} (h : stringChar? t = some (c, r)) :
    r.length < t.length := by
  unfold stringChar? at h
  split at h
  · obtain ⟨n, -, h⟩ := Option.bind_eq_some_iff.1 h
    split at h
    · split at h
      · obtain ⟨m, -, h⟩ := Option.bind_eq_some_iff.1 h
        obtain ⟨d, -, h⟩ := Option.bind_eq_some_iff.1 h
        obtain ⟨-, rfl⟩ := Prod.mk.inj (Option.some.inj h)
        simp only [List.length_cons]
        omega
      · exact absurd h (by simp)
    · obtain ⟨d, -, h⟩ := Option.bind_eq_some_iff.1 h
      obtain ⟨-, rfl⟩ := Prod.mk.inj (Option.some.inj h)
      simp only [List.length_cons]
      omega
  · obtain ⟨d, -, h⟩ := Option.bind_eq_some_iff.1 h
    obtain ⟨-, rfl⟩ := Prod.mk.inj (Option.some.inj h)
    simp only [List.length_cons]
    omega
  · split at h
    · exact absurd h (by simp)
    · obtain ⟨-, rfl⟩ := Prod.mk.inj (Option.some.inj h)
      simp
  · exact absurd h (by simp)

/-- The content of a string and what follows its closing quote; the text stands after the opening
one. -/
def string? (t : Text) : Option (Text × Text) :=
  if t.head? = some '"' then some ([], t.tail)
  else
    match _h : stringChar? t with
    | none => none
    | some (c, r) => (string? r).map fun p => (c :: p.1, p.2)
termination_by t.length
decreasing_by exact length_stringChar?_rest _h

/-- Items separated by commas up to a closing bracket, at least one and at most `fuel`. -/
def items? {α : Type} (item : Text → Option (α × Text)) (closing : Char) :
    Nat → Text → Option (List α × Text)
  | 0, _ => none
  | fuel + 1, t =>
    match item t with
    | none => none
    | some (a, r) =>
      match skipGap r with
      | [] => none
      | c :: r =>
        if c = closing then some ([a], r)
        else if c = ',' then (items? item closing fuel r).map fun p => (a :: p.1, p.2)
        else none

/-- Items between brackets, or nothing between them; the text stands after the opening one. There
are never more items than characters. -/
def list? {α : Type} (item : Text → Option (α × Text)) (closing : Char) (t : Text) :
    Option (List α × Text) :=
  match skipGap t with
  | [] => none
  | c :: r => if c = closing then some ([], r) else items? item closing (r.length + 1) (c :: r)

/-- A member of an object: its name, a colon and its value. -/
def member? (value : Text → Option (Value × Text)) (t : Text) : Option ((Text × Value) × Text) :=
  match skipGap t with
  | '"' :: r => do
    let (name, r) ← string? r
    match skipGap r with
    | ':' :: r =>
      let (v, r) ← value r
      return ((name, v), r)
    | _ => none
  | _ => none

/-- The value a text starts with and what follows it; arrays and objects may nest `depth` deep. -/
def value? : Nat → Text → Option (Value × Text)
  | depth, t =>
    match skipGap t with
    | 'n' :: 'u' :: 'l' :: 'l' :: r => some (.null, r)
    | 't' :: 'r' :: 'u' :: 'e' :: r => some (.bool true, r)
    | 'f' :: 'a' :: 'l' :: 's' :: 'e' :: r => some (.bool false, r)
    | '"' :: r => (string? r).map fun p => (.string p.1, p.2)
    | '[' :: r =>
      match depth with
      | 0 => none
      | d + 1 => (list? (value? d) ']' r).map fun p => (.array p.1, p.2)
    | '{' :: r =>
      match depth with
      | 0 => none
      | d + 1 => (list? (member? (value? d)) '}' r).map fun p => (.object (Entries.ofList p.1), p.2)
    | r => (number? r).map fun p => (.number p.1, p.2)

/-- How deep arrays and objects may nest. -/
def depthLimit : Nat := 127

def read? (t : Text) : Option Value :=
  match value? depthLimit t with
  | some (v, r) => if (skipGap r).isEmpty then some v else none
  | none => none

end StyleScope.Json
