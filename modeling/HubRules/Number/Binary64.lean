/-!
# Doubles

The finite double-precision numbers as exact values `± mantissa · 2 ^ exponent`,
rounding of a fraction to the nearest of them, and the two operations by which
written decimals are read. All of it is arithmetic on natural numbers.
-/

namespace HubRules

/-- A finite double. Every value has one form: the mantissa is below `2 ^ 53`,
and at least `2 ^ 52` unless the exponent is the least one, `-1074`. -/
structure Binary64 where
  negative : Bool
  mantissa : Nat
  exponent : Int
  deriving DecidableEq, Repr

namespace Binary64

def minExponent : Int := -1074

def maxExponent : Int := 971

def zero (negative : Bool) : Binary64 := ⟨negative, 0, minExponent⟩

/-- Whether the number is zero, of either sign. -/
def isZero (x : Binary64) : Bool := x.mantissa == 0

def neg (x : Binary64) : Binary64 := { x with negative := !x.negative }

/-- The quotient rounded to the nearest natural number, a half to the even one. -/
def roundHalfEven (num den : Nat) : Nat :=
  let q := num / den
  let r := num % den
  if 2 * r > den || (2 * r == den && q % 2 == 1) then q + 1 else q

/-- `num · 2 ^ (-e)` over `den`, as a fraction of natural numbers. -/
def scaled (num den : Nat) (e : Int) : Nat × Nat :=
  if e < 0 then (num * Nat.pow 2 (-e).toNat, den) else (num, den * Nat.pow 2 e.toNat)

/-- The double nearest to a fraction, or `none` beyond the greatest one. -/
def ofFraction (negative : Bool) (num den : Nat) : Option Binary64 :=
  if num == 0 || den == 0 then some (zero negative)
  else
    let guess : Int := (Nat.log2 num : Int) - Nat.log2 den - 53
    let (a, b) := scaled num den guess
    let e := max minExponent (if a / b ≥ Nat.pow 2 53 then guess + 1 else guess)
    let (a, b) := scaled num den e
    let m := roundHalfEven a b
    let (m, e) := if m == Nat.pow 2 53 then (Nat.pow 2 52, e + 1) else (m, e)
    if e > maxExponent then none else some ⟨negative, m, e⟩

def ofNat (n : Nat) : Option Binary64 := ofFraction false n 1

def ofInt (i : Int) : Option Binary64 := ofFraction (i < 0) i.natAbs 1

def ofPowerOfTen (n : Nat) : Option Binary64 := ofNat (Nat.pow 10 n)

def fraction (x : Binary64) : Nat × Nat :=
  if x.exponent < 0 then (x.mantissa, Nat.pow 2 (-x.exponent).toNat)
  else (x.mantissa * Nat.pow 2 x.exponent.toNat, 1)

def mul (x y : Binary64) : Option Binary64 :=
  let (a, b) := x.fraction
  let (c, d) := y.fraction
  ofFraction (x.negative != y.negative) (a * c) (b * d)

/-- The rounded quotient by a number that is not zero. -/
def div (x y : Binary64) : Option Binary64 :=
  let (a, b) := x.fraction
  let (c, d) := y.fraction
  ofFraction (x.negative != y.negative) (a * d) (b * c)

/-- The value as a fraction: a signed numerator over a denominator. -/
def signedFraction (x : Binary64) : Int × Nat :=
  let (a, b) := x.fraction
  (if x.negative then -(a : Int) else a, b)

/-- The order of the values; the two zeros are equal. -/
def compare (x y : Binary64) : Ordering :=
  let (a, b) := x.signedFraction
  let (c, d) := y.signedFraction
  Ord.compare (a * d) (c * b)

def compareInt (i : Int) (x : Binary64) : Ordering :=
  let (a, b) := x.signedFraction
  Ord.compare (i * b) a

/-- Whether the number has a full mantissa: it is neither zero nor subnormal. -/
def isNormal (x : Binary64) : Bool := x.mantissa ≥ Nat.pow 2 52

end Binary64

end HubRules
