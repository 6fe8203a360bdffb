import DiceNotation.Decimal.Basic

/-!
Arithmetic in a decimal context: an exact result is rounded to the precision of the context, and
one beyond its exponents is no result. Small results lose digits from the least exponent on.
-/
namespace DiceNotation

open Text

/-- What becomes of a value half way between two neighbours: away from zero, or to the even one. -/
inductive Rounding where
  | halfUp | halfEven
  deriving DecidableEq, Repr

def Rounding.quotient (r : Rounding) (n d : Nat) : Nat :=
  if d < 2 * (n % d) then n / d + 1
  else if 2 * (n % d) = d then
    match r with
    | .halfUp => n / d + 1
    | .halfEven => n / d + n / d % 2
  else n / d

def Rounding.dropDigits (r : Rounding) (coefficient n : Nat) : Nat :=
  if digitCount coefficient < n then 0 else r.quotient coefficient (Nat.pow 10 n)

/-- The exponents bound the power of ten of the first digit. -/
structure Context where
  precision : Nat
  rounding : Rounding
  minExponent : Int
  maxExponent : Int
  deriving DecidableEq, Repr

namespace Context

def tiny (c : Context) : Int := c.minExponent - c.precision + 1

def carry (c : Context) (d : Decimal) : Decimal :=
  if c.precision < d.digits then ⟨d.negative, d.coefficient / 10, d.exponent + 1⟩ else d

def fix? (c : Context) (d : Decimal) : Option Decimal :=
  if d.coefficient = 0 then
    some { d with exponent := min (max d.exponent c.tiny) c.maxExponent }
  else if c.maxExponent < d.adjusted then none
  else
    let least := max (d.exponent + d.digits - c.precision) c.tiny
    if d.exponent < least then
      let rounded := c.carry
        ⟨d.negative, c.rounding.dropDigits d.coefficient (least - d.exponent).toNat, least⟩
      if c.maxExponent < rounded.adjusted then none else some rounded
    else some d

/-- A decimal that lies wholly below what the sum with `big` can show counts only as being there:
it is replaced by one unit just below the digits that are kept. -/
def absorb (c : Context) (big small : Decimal) : Decimal :=
  let edge := big.exponent - 1 + min 0 ((big.digits : Int) - c.precision - 1)
  if big.coefficient ≠ 0 ∧ small.adjusted < edge then
    ⟨small.negative, if small.coefficient = 0 then 0 else 1, edge⟩
  else small

def exactSum (a b : Decimal) : Decimal :=
  let exponent := min a.exponent b.exponent
  let sum := a.unitsOf exponent + b.unitsOf exponent
  ⟨if sum = 0 then a.negative && b.negative else sum < 0, sum.natAbs, exponent⟩

def add? (c : Context) (a b : Decimal) : Option Decimal :=
  if a.exponent < b.exponent then c.fix? (exactSum (c.absorb b a) b)
  else c.fix? (exactSum a (c.absorb a b))

def sub? (c : Context) (a b : Decimal) : Option Decimal := c.add? a b.neg

def mul? (c : Context) (a b : Decimal) : Option Decimal :=
  c.fix? ⟨a.negative != b.negative, a.coefficient * b.coefficient, a.exponent + b.exponent⟩

def stripZeros : Nat → Nat → Int → Nat × Int
  | 0, coefficient, exponent => (coefficient, exponent)
  | n + 1, coefficient, exponent =>
      if coefficient % 10 = 0 then stripZeros n (coefficient / 10) (exponent + 1)
      else (coefficient, exponent)

/-- The quotient by a divisor that is not zero. One digit more than the precision is computed; a
remainder shows as a last digit that is neither 0 nor 5, so that rounding sees which side of a
half the quotient lies on. An exact quotient has the exponent nearest to the difference of those of
the operands. -/
def div? (c : Context) (a b : Decimal) : Option Decimal :=
  let negative := a.negative != b.negative
  let ideal := a.exponent - b.exponent
  if a.coefficient = 0 then c.fix? ⟨negative, 0, ideal⟩
  else
    let shift : Int := (b.digits : Int) - a.digits + c.precision + 1
    let n := a.coefficient * Nat.pow 10 shift.toNat
    let d := b.coefficient * Nat.pow 10 (-shift).toNat
    let quotient := n / d
    if n % d = 0 then
      let (coefficient, exponent) := stripZeros shift.toNat quotient (ideal - shift)
      c.fix? ⟨negative, coefficient, exponent⟩
    else
      c.fix? ⟨negative, if quotient % 5 = 0 then quotient + 1 else quotient, ideal - shift⟩

def quantize? (c : Context) (d : Decimal) (exponent : Int) : Option Decimal :=
  if d.coefficient = 0 then some { d with exponent := exponent }
  else if c.maxExponent < d.adjusted ∨ (c.precision : Int) < d.adjusted - exponent + 1 then none
  else
    let coefficient :=
      if exponent ≤ d.exponent then d.coefficient * Nat.pow 10 (d.exponent - exponent).toNat
      else c.rounding.dropDigits d.coefficient (exponent - d.exponent).toNat
    if c.precision < digitCount coefficient then none
    else some ⟨d.negative, coefficient, exponent⟩

end Context
end DiceNotation
