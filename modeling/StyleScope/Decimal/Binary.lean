/-! # Binary floating-point numbers

A nonnegative number `mantissa * 2 ^ exponent` with a mantissa below `2 ^ 53` and an exponent from
-1074 to 971. Arithmetic is exact and rounded once, to the nearest such number and between two to
the one with the even mantissa. What would be too large is no number.
-/
namespace StyleScope.Decimal

structure Binary where
  mantissa : Nat
  exponent : Int
deriving DecidableEq, Repr, Inhabited

namespace Binary

def isZero (x : Binary) : Bool := x.mantissa = 0

/-- The least mantissa of full length, `2 ^ 52`. -/
def leadingBit : Nat := Nat.pow 2 52

/-- The quotient rounded to the nearest integer, a half to the even one. -/
def roundDiv (a b : Nat) : Nat :=
  let q := a / b
  let r := a % b
  if b < 2 * r || (2 * r = b && q % 2 = 1) then q + 1 else q

/-- Numerator and denominator of `num / den` in units of `2 ^ e`. -/
def inUnits (num den : Nat) (e : Int) : Nat × Nat :=
  if 0 ≤ e then (num, den * Nat.pow 2 e.toNat) else (num * Nat.pow 2 (-e).toNat, den)

/-- The exponent at which the mantissa of a positive ratio has 53 bits, but at least -1074. -/
def ratioExponent (num den : Nat) : Int :=
  let e : Int := (num.log2 : Int) - (den.log2 : Int) - 52
  let p := inUnits num den e
  max (if p.1 / p.2 < leadingBit then e - 1 else e) (-1074)

/-- The number nearest to `num / den`, if that is not too large. -/
def ofRatio? (num den : Nat) : Option Binary :=
  if num = 0 then some ⟨0, -1074⟩
  else
    let e := ratioExponent num den
    let p := inUnits num den e
    let m := roundDiv p.1 p.2
    let x : Binary := if m = 2 * leadingBit then ⟨leadingBit, e + 1⟩ else ⟨m, e⟩
    if 971 < x.exponent then none else some x

def ratio (x : Binary) : Nat × Nat :=
  if 0 ≤ x.exponent then (x.mantissa * Nat.pow 2 x.exponent.toNat, 1)
  else (x.mantissa, Nat.pow 2 (-x.exponent).toNat)

def mul? (x y : Binary) : Option Binary :=
  ofRatio? (x.ratio.1 * y.ratio.1) (x.ratio.2 * y.ratio.2)

def div? (x y : Binary) : Option Binary :=
  ofRatio? (x.ratio.1 * y.ratio.2) (x.ratio.2 * y.ratio.1)

/-- The number nearest to a power of ten. -/
def pow10? (k : Nat) : Option Binary := ofRatio? (Nat.pow 10 k) 1

end Binary
end StyleScope.Decimal
