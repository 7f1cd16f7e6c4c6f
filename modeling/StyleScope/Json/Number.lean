import StyleScope.Json.Value
import StyleScope.Basic

/-! # Reading numbers

Digits are gathered into a whole number of at most 64 bits, the significand; those that no longer
fit only count towards the exponent in front of the point and are dropped behind it. A number with
a fraction or an exponent is the significand as a binary number, multiplied or divided by the
binary number nearest to a power of ten. The result can thus differ from the nearest binary number.
Numbers that are too large are refused.
-/
namespace StyleScope.Json
open Text Decimal

def significandLimit : Nat := Nat.pow 2 64 - 1

def exponentLimit : Nat := Nat.pow 2 31 - 1

/-- The largest power of ten that is multiplied or divided by at once. -/
def powerLimit : Nat := 308

def digitValue (c : Char) : Nat := c.toNat - '0'.toNat

/-- Takes digits into a significand while it fits, and counts those left over. -/
def gather (significand : Nat) : Text → Nat × Nat
  | [] => (significand, 0)
  | c :: r =>
    let next := significand * 10 + digitValue c
    if significandLimit < next then (significand, r.length + 1) else gather next r

/-- Divides by a power of ten with as many steps as its exponent needs. -/
def divPow10? (x : Binary) (k : Nat) : Option Binary :=
  if k ≤ powerLimit then do x.div? (← Binary.pow10? k)
  else if x.isZero then some x
  else do
    let y ← x.div? (← Binary.pow10? powerLimit)
    divPow10? y (k - powerLimit)
termination_by k
decreasing_by
  have : 0 < powerLimit := by decide
  omega

/-- A significand times a power of ten. -/
def scale? (significand : Nat) (exponent : Int) : Option Binary := do
  let x ← Binary.ofRatio? significand 1
  if exponent < 0 then divPow10? x exponent.natAbs
  else if exponent.natAbs ≤ powerLimit then x.mul? (← Binary.pow10? exponent.natAbs)
  else if x.isZero then some x
  else none

/-- An exponent part: its value with its sign, and what follows it. The text stands after the
letter. -/
def exponent? (t : Text) : Option (Int × Text) :=
  let (minus, r) : Bool × Text := match t with
    | '-' :: r => (true, r)
    | '+' :: r => (false, r)
    | _ => (false, t)
  let digits := r.takeWhile isDigit
  if digits.isEmpty then none
  else
    let n : Int := (digits.foldl (fun n c => n * 10 + digitValue c) 0 : Nat)
    some (if minus then -n else n, r.dropWhile isDigit)

/-- The value of a number with a fraction or an exponent part that starts at `t`; `shift` is the
exponent gathered so far. -/
def withExponent? (significand : Nat) (shift : Int) (t : Text) : Option (Binary × Text) :=
  match t with
  | c :: r =>
    if c = 'e' || c = 'E' then do
      let (e, rest) ← exponent? r
      if exponentLimit < e.natAbs then
        if significand = 0 || e < 0 then (Binary.ofRatio? 0 1).map (·, rest) else none
      else (scale? significand (shift + e)).map (·, rest)
    else (scale? significand shift).map (·, t)
  | [] => (scale? significand shift).map (·, [])

/-- A number that is not whole, from its significand on. -/
def fraction? (significand : Nat) (shift : Int) (t : Text) : Option (Binary × Text) :=
  match t with
  | '.' :: r =>
    let digits := r.takeWhile isDigit
    if digits.isEmpty then none
    else
      let (s, left) := gather significand digits
      withExponent? s (shift - (digits.length - left : Nat)) (r.dropWhile isDigit)
  | _ => withExponent? significand shift t

/-- A number with the given sign, and what follows it. -/
def unsigned? (minus : Bool) (t : Text) : Option (Number × Text) :=
  let digits := t.takeWhile isDigit
  let rest := t.dropWhile isDigit
  if digits.isEmpty || (digits.head? = some '0' && 1 < digits.length) then none
  else
    let (significand, left) := gather 0 digits
    let isWhole := left = 0 && (match rest with
      | c :: _ => c ≠ '.' && c ≠ 'e' && c ≠ 'E'
      | [] => true)
    if isWhole then
      if !minus then some (.natural significand, rest)
      else if 0 < significand && significand ≤ Nat.pow 2 63 then some (.negative significand, rest)
      else (Binary.ofRatio? significand 1).map fun x => (.binary true x, rest)
    else (fraction? significand left rest).map fun p => (.binary minus p.1, p.2)

/-- The number a text starts with, and what follows it. -/
def number? : Text → Option (Number × Text)
  | '-' :: r => unsigned? true r
  | t => unsigned? false t

end StyleScope.Json
