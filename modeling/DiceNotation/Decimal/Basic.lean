import DiceNotation.Text.Numeral

/-!
Decimals: a sign, a coefficient and a power of ten. Two decimals may have one value, as `1.0` and
`1.00` do; the exponent is kept because it tells how a value is written.
-/
namespace DiceNotation

open Text

structure Decimal where
  negative : Bool
  coefficient : Nat
  exponent : Int
  deriving DecidableEq, Repr

namespace Decimal

def ofInt (n : Int) : Decimal := ⟨n < 0, n.natAbs, 0⟩

instance : Inhabited Decimal := ⟨ofInt 0⟩

def isZero (d : Decimal) : Bool := d.coefficient == 0

def digits (d : Decimal) : Nat := digitCount d.coefficient

/-- The power of ten of the first digit. -/
def adjusted (d : Decimal) : Int := d.exponent + d.digits - 1

def neg (d : Decimal) : Decimal := { d with negative := !d.negative }

def signed (d : Decimal) : Int := if d.negative then -(d.coefficient : Int) else d.coefficient

def scaleUp (n k : Nat) : Nat := if n = 0 then 0 else n * Nat.pow 10 k

def unitsOf (d : Decimal) (exponent : Int) : Int :=
  let magnitude : Int := scaleUp d.coefficient (d.exponent - exponent).toNat
  if d.negative then -magnitude else magnitude

/-- The order of two coefficients with their exponents. Powers of ten are compared first, so that
distant exponents are never written out. -/
def magnitudeLt (a b : Decimal) : Bool :=
  if b.coefficient = 0 then false
  else if a.coefficient = 0 then true
  else if a.adjusted = b.adjusted then
    scaleUp a.coefficient (a.exponent - b.exponent).toNat <
      scaleUp b.coefficient (b.exponent - a.exponent).toNat
  else a.adjusted < b.adjusted

def lt (a b : Decimal) : Bool :=
  if a.signed.sign = b.signed.sign then
    if a.signed.sign = 1 then magnitudeLt a b else magnitudeLt b a
  else a.signed.sign < b.signed.sign

def le (a b : Decimal) : Bool := !b.lt a

def sameValue (a b : Decimal) : Bool := !a.lt b && !b.lt a

def truncate (d : Decimal) : Int :=
  let magnitude := scaleUp d.coefficient d.exponent.toNat / Nat.pow 10 (-d.exponent).toNat
  if d.negative then -(magnitude : Int) else magnitude

end Decimal
end DiceNotation
