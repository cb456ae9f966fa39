import HubRules.Number.Binary64

/-!
# Written decimals

The double that a decimal text stands for: a sign, digits with a point among them,
and an exponent. A magnitude beyond every double is infinite.
-/

namespace HubRules

/-- What a decimal text stands for. -/
inductive Decimal where
  | finite (value : Binary64)
  | infinite (negative : Bool)
  | undefined
  deriving DecidableEq, Repr

namespace Decimal

def ofDigits (digits : List Char) : Nat :=
  digits.foldl (fun n c => 10 * n + (c.toNat - '0'.toNat)) 0

/-- A sign at the head of a text, and the text after it. -/
def sign (text : List Char) : Bool × List Char :=
  match text with
  | '-' :: rest => (true, rest)
  | '+' :: rest => (false, rest)
  | rest => (false, rest)

/-- The double nearest to `digits · 10 ^ exponent`. -/
def ofScientific (negative : Bool) (digits : Nat) (exponent : Int) : Decimal :=
  let size : Int := (Nat.toDigits 10 digits).length + exponent
  if digits = 0 ∨ size < -400 then .finite (.zero negative)
  else if size > 400 then .infinite negative
  else
    let nearest :=
      if exponent < 0 then Binary64.ofFraction negative digits (Nat.pow 10 (-exponent).toNat)
      else Binary64.ofFraction negative (digits * Nat.pow 10 exponent.toNat) 1
    match nearest with
    | some value => .finite value
    | none => .infinite negative

def read? (text : List Char) : Option Decimal := do
  let (negative, body) := sign text
  let word := String.ofList (body.map Char.toLower)
  if word = "inf" ∨ word = "infinity" then return .infinite negative
  if word = "nan" then return .undefined
  let whole := body.takeWhile Char.isDigit
  let rest := body.drop whole.length
  let (fraction, rest) := match rest with
    | '.' :: more => (more.takeWhile Char.isDigit, more.dropWhile Char.isDigit)
    | more => ([], more)
  let digits := whole ++ fraction
  if digits.isEmpty then none
  let exponent : Int ← match rest with
    | [] => some 0
    | c :: more =>
      if c == 'e' || c == 'E' then
        let (down, power) := sign more
        if power.isEmpty || !power.all Char.isDigit then none
        else some (if down then -(ofDigits power : Int) else (ofDigits power : Int))
      else none
  return ofScientific negative (ofDigits digits) (exponent - fraction.length)

/-- How a double compares to a decimal; nothing compares to what is undefined. -/
def compareTo? (x : Binary64) : Decimal → Option Ordering
  | .finite y => some (x.compare y)
  | .infinite true => some .gt
  | .infinite false => some .lt
  | .undefined => none

end Decimal

end HubRules
