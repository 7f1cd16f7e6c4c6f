import StyleScope.Decimal.Binary
import StyleScope.Basic

/-! # Shortest decimal digits

Of all decimals that round to a given binary number, the shortest is chosen, of those of equal
length the nearest, and between two equally near the even one.
-/
namespace StyleScope.Decimal

def natText (n : Nat) : Text := Nat.toDigits 10 n

/-- The digits of a number and the power of ten of the last of them. -/
structure Digits where
  digits : Nat
  exponent : Int
deriving DecidableEq, Repr

/-- The positive real numbers that round to a binary number: between `low / scale` and
`high / scale`, the ends included if the mantissa is even. -/
structure Rounding where
  low : Nat
  value : Nat
  high : Nat
  scale : Nat
  closed : Bool
deriving Repr

namespace Rounding

/-- The interval of a binary number. Below a power of two the next number is half as far away. -/
def ofBinary (x : Binary) : Rounding :=
  let unit := 4 * x.mantissa
  let below := if x.mantissa = Binary.leadingBit && -1074 < x.exponent then 1 else 2
  let closed := x.mantissa % 2 = 0
  if 0 ≤ x.exponent then
    let p := Nat.pow 2 x.exponent.toNat
    ⟨(unit - below) * p, unit * p, (unit + 2) * p, 4, closed⟩
  else ⟨unit - below, unit, unit + 2, 4 * Nat.pow 2 (-x.exponent).toNat, closed⟩

/-- Whether `a / b` lies in the interval. -/
def contains (r : Rounding) (a b : Nat) : Bool :=
  if r.closed then r.low * b ≤ a * r.scale && a * r.scale ≤ r.high * b
  else r.low * b < a * r.scale && a * r.scale < r.high * b

/-- The digits `d` in units of `10 ^ e` as a fraction. -/
def fraction (d : Nat) (e : Int) : Nat × Nat :=
  if 0 ≤ e then (d * Nat.pow 10 e.toNat, 1) else (d, Nat.pow 10 (-e).toNat)

/-- The nearest multiple of `10 ^ e` in the interval, if the neighbours of the value are in it. -/
def atUnit? (r : Rounding) (e : Int) : Option Digits :=
  let p := fraction 1 e
  let num := r.value * p.2
  let den := r.scale * p.1
  let d := num / den
  let rest := num % den
  let down := fraction d e
  let up := fraction (d + 1) e
  match r.contains down.1 down.2 && 0 < d, r.contains up.1 up.2 with
  | true, true =>
    if 2 * rest < den || (2 * rest = den && d % 2 = 0) then some ⟨d, e⟩ else some ⟨d + 1, e⟩
  | true, false => some ⟨d, e⟩
  | false, true => some ⟨d + 1, e⟩
  | false, false => none

/-- The power of ten just above the value. -/
def magnitude (r : Rounding) : Int :=
  if r.scale ≤ r.value then (natText (r.value / r.scale)).length
  else 1 - ((natText (r.scale / r.value)).length : Int)

end Rounding

/-- The same number without the zeros at the end of its digits. -/
def Digits.strip (d : Digits) : Digits :=
  if d.digits % 10 = 0 ∧ 0 < d.digits then strip ⟨d.digits / 10, d.exponent + 1⟩ else d
termination_by d.digits
decreasing_by exact Nat.div_lt_self (by omega) (by decide)

/-- The shortest digits that round to a positive binary number; seventeen always do. -/
def shortest (x : Binary) : Digits :=
  let r := Rounding.ofBinary x
  let found := (List.range 17).findSome? fun (n : Nat) => r.atUnit? (r.magnitude - 1 - n)
  (found.getD ⟨0, 0⟩).strip

/-- An integer with its sign, also where it is not negative. -/
def signedText (n : Int) : Text := (if n < 0 then '-' else '+') :: natText n.natAbs

/-- Where the decimal point is written. -/
structure Style where
  /-- Numbers below this power of ten are written without an exponent. -/
  positionalBelow : Int
  /-- Numbers from this power of ten on are written without an exponent. -/
  positionalFrom : Int

namespace Style

/-- The text of a nonzero number from its digits. A point is always followed by a digit; a single
digit before an exponent stands without a point, and the exponent has a sign. -/
def text (s : Style) (d : Digits) : Text :=
  let digits := natText d.digits
  let point : Int := digits.length + d.exponent
  if 0 ≤ d.exponent && point ≤ s.positionalBelow then
    digits ++ List.replicate d.exponent.toNat '0' ++ ['.', '0']
  else if 0 < point && point ≤ s.positionalBelow then
    digits.take point.toNat ++ '.' :: digits.drop point.toNat
  else if s.positionalFrom ≤ point && point ≤ 0 then
    '0' :: '.' :: List.replicate (-point).toNat '0' ++ digits
  else
    match digits with
    | [c] => c :: 'e' :: signedText (point - 1)
    | c :: rest => c :: '.' :: rest ++ 'e' :: signedText (point - 1)
    | [] => []

end Style

def Binary.text (s : Style) (x : Binary) : Text :=
  if x.isZero then ['0', '.', '0'] else s.text (shortest x)

end StyleScope.Decimal
