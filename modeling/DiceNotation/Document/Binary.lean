import DiceNotation.Decimal.Basic

/-!
Binary floating-point numbers, and the shortest decimal that stands for one: the decimal with the
fewest digits among those that are closer to the number than to its neighbours.
-/
namespace DiceNotation

inductive Binary where
  | finite (negative : Bool) (significand : Nat) (exponent : Int)
  | infinite (negative : Bool)
  | undefined
  deriving DecidableEq, Repr

namespace Binary

def ofBits (bits : Nat) : Binary :=
  let negative : Bool := bits / Nat.pow 2 63 % 2 == 1
  let exponent : Nat := bits / Nat.pow 2 52 % Nat.pow 2 11
  let fraction : Nat := bits % Nat.pow 2 52
  if exponent = 2047 then if fraction = 0 then infinite negative else undefined
  else if exponent = 0 then finite negative fraction (-1074)
  else finite negative (Nat.pow 2 52 + fraction) (exponent - 1075)

def wholeMagnitude? (significand : Nat) (exponent : Int) : Option Nat :=
  if 0 ≤ exponent then some (significand * Nat.pow 2 exponent.toNat)
  else
    let unit := Nat.pow 2 (-exponent).toNat
    if significand % unit = 0 then some (significand / unit) else none

/-- The multiple of `10 ^ k` that is closest to a number among those that round to it; of two at the
same distance, the greater. The number and the ends of its interval are given in quarters of its
last place, over a common denominator. -/
def nearestOnGrid (low value high unit scale : Nat) (ends : Bool) : Option Nat :=
  let inside (n : Nat) : Bool :=
    if ends then low * unit ≤ n * scale && n * scale ≤ high * unit
    else low * unit < n * scale && n * scale < high * unit
  let below := value * unit / scale
  match inside below, inside (below + 1) with
  | true, true =>
      if value * unit - below * scale < (below + 1) * scale - value * unit then some below
      else some (below + 1)
  | true, false => some below
  | false, true => some (below + 1)
  | false, false => none

def searchGrids (low value high : Nat) (quarter : Int) (ends : Bool) : Nat → Int → Nat × Int
  | 0, k => (0, k)
  | n + 1, k =>
      let unit := Nat.pow 2 quarter.toNat * Nat.pow 10 (-k).toNat
      let scale := Nat.pow 2 (-quarter).toNat * Nat.pow 10 k.toNat
      match nearestOnGrid low value high unit scale ends with
      | some digits => (digits, k)
      | none => searchGrids low value high quarter ends n (k - 1)

def shortest (negative : Bool) (significand : Nat) (exponent : Int) : Decimal :=
  if significand = 0 then ⟨negative, 0, 0⟩
  else
    let value := 4 * significand
    let low := if significand = Nat.pow 2 52 ∧ -1074 < exponent then value - 1 else value - 2
    let (digits, k) :=
      searchGrids low value (value + 2) (exponent - 2) (significand % 2 = 0) 640 309
    ⟨negative, digits * Nat.pow 10 k.toNat, min k 0⟩

end Binary
end DiceNotation
