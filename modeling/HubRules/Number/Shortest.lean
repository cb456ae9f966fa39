import HubRules.Number.Binary64

/-!
# Shortest decimals

The fewest significant digits that read back as a given double, and of those the
nearest to it. For 1, 2, … 17 digits the two neighbours of the value on that
decimal grid are tested against the interval of numbers that round to it.
-/

namespace HubRules.Binary64

/-- A decimal `digits · 10 ^ exponent`. -/
structure Decimal where
  digits : Nat
  exponent : Int
  deriving DecidableEq, Repr

def timesPowerOfTen (num den : Nat) (e : Int) : Nat × Nat :=
  if e < 0 then (num, den * Nat.pow 10 (-e).toNat) else (num * Nat.pow 10 e.toNat, den)

/-- The greatest `e` with `10 ^ e` not above the fraction. -/
def decimalExponent (num den : Nat) : Int :=
  let bits : Int := (Nat.log2 num : Int) - Nat.log2 den
  let guess := Int.fdiv (bits * 30103) 100000 - 1
  let reached (e : Int) : Bool :=
    let (a, b) := timesPowerOfTen num den (-e)
    a ≥ b
  if reached (guess + 2) then guess + 2
  else if reached (guess + 1) then guess + 1
  else guess

/-- Four times the ends of the interval of numbers that round to `x`, over the
denominator of `x`, and whether the ends belong to it. -/
def interval (x : Binary64) : Nat × Nat × Bool :=
  let (num, _) := x.fraction
  let unit := num / x.mantissa
  let below := if x.mantissa == Nat.pow 2 52 && x.exponent > minExponent then unit else 2 * unit
  (4 * num - below, 4 * num + 2 * unit, x.mantissa % 2 == 0)

/-- The nearest decimal of `count` digits that reads back as `x`, if one does. -/
def decimalOf? (x : Binary64) (top : Int) (count : Nat) : Option Decimal :=
  let (num, den) := x.fraction
  let (low, high, closed) := x.interval
  let e := top + 1 - count
  let (a, b) := timesPowerOfTen num den (-e)
  let floor := a / b
  let inside (d : Nat) : Bool :=
    let (c, f) := timesPowerOfTen (4 * d * den) 1 e
    if closed then low * f ≤ c && c ≤ high * f else low * f < c && c < high * f
  let nearer := if 2 * (a % b) < b || (2 * (a % b) == b && floor % 2 == 0) then
    [floor, floor + 1] else [floor + 1, floor]
  (nearer.find? inside).map fun d => ⟨d, e⟩

/-- Trailing zeros moved into the exponent; `fuel` bounds their number. -/
def Decimal.trimmed (d : Decimal) : Nat → Decimal
  | 0 => d
  | fuel + 1 =>
    if d.digits != 0 && d.digits % 10 == 0 then
      Decimal.trimmed ⟨d.digits / 10, d.exponent + 1⟩ fuel
    else d

/-- The shortest decimal that reads back as the magnitude of `x`. -/
def shortest (x : Binary64) : Decimal :=
  if x.isZero then ⟨0, 0⟩
  else
    let (num, den) := x.fraction
    let top := decimalExponent num den
    let counts := (List.range 17).map (· + 1)
    ((counts.findSome? (x.decimalOf? top)).getD ⟨num / den, 0⟩).trimmed 20

end HubRules.Binary64
