import DiceNotation.Proofs.Decimal.Cents
import Mathlib.Data.Nat.Cast.Order.Field

/-!
The exact results of the four operations, and the coefficients that a sum and a quotient are
computed from.
-/
namespace DiceNotation

open Text

def Operator.exact : Operator → ℚ → ℚ → ℚ
  | add, x, y => x + y
  | sub, x, y => x - y
  | mul, x, y => x * y
  | div, x, y => x / y

namespace Context

theorem signed_of_sum (sum : ℤ) (zeroSign : Bool) (e : ℤ) :
    (⟨if sum = 0 then zeroSign else sum < 0, sum.natAbs, e⟩ : Decimal).signed = sum := by
  unfold Decimal.signed
  by_cases zero : sum = 0
  · simp [zero]
  · dsimp only
    rw [if_neg zero]
    by_cases negative : sum < 0
    · rw [if_pos (by simpa using negative)]
      omega
    · rw [if_neg (by simpa using negative)]
      omega

theorem exactSum_toRat (a b : Decimal) : (exactSum a b).toRat = a.toRat + b.toRat := by
  have left := a.toRat_eq_units (Int.min_le_left a.exponent b.exponent)
  have right := b.toRat_eq_units (Int.min_le_right a.exponent b.exponent)
  have signed : (exactSum a b).signed =
      a.unitsOf (min a.exponent b.exponent) + b.unitsOf (min a.exponent b.exponent) :=
    signed_of_sum _ _ _
  have exponent : (exactSum a b).exponent = min a.exponent b.exponent := rfl
  rw [Decimal.toRat, signed, exponent, left, right]
  push_cast
  ring

theorem stripZeros_magnitude (n c : ℕ) (e : ℤ) :
    ((stripZeros n c e).1 : ℚ) * 10 ^ (stripZeros n c e).2 = c * 10 ^ e := by
  induction n generalizing c e with
  | zero => rfl
  | succ n ih =>
    unfold stripZeros
    by_cases whole : c % 10 = 0
    · have tenfold : (c : ℚ) = (c / 10 : ℕ) * 10 := by
        have split : c = c / 10 * 10 := by omega
        exact_mod_cast split
      rw [if_pos whole, ih, tenfold, zpow_add₀ (by norm_num), zpow_one]
      ring
    · rw [if_neg whole]

theorem pow_toNat_ratio (k : ℤ) : (10 : ℚ) ^ k.toNat / 10 ^ (-k).toNat = 10 ^ k := by
  rcases le_total 0 k with nonneg | nonpos
  · have none : (-k).toNat = 0 := by omega
    have size : (k.toNat : ℤ) = k := by omega
    rw [none, pow_zero, div_one, ← zpow_natCast, size]
  · have none : k.toNat = 0 := by omega
    have size : ((-k).toNat : ℤ) = -k := by omega
    rw [none, pow_zero, ← zpow_natCast, size, zpow_neg, one_div, inv_inv]

theorem div_floor_bounds (n : ℕ) {d : ℕ} (pos : 0 < d) :
    ((n / d : ℕ) : ℚ) ≤ (n : ℚ) / d ∧ (n : ℚ) / d < (n / d : ℕ) + 1 := by
  have posD : (0 : ℚ) < d := by exact_mod_cast pos
  refine ⟨Nat.cast_div_le, ?_⟩
  rw [div_lt_iff₀ posD]
  exact_mod_cast Nat.lt_mul_of_div_lt (Nat.lt_succ_self (n / d)) pos

section Quotient

variable {a b : Decimal}

theorem scaled_quotient (a b : Decimal) (shift : ℤ) :
    ((a.coefficient * 10 ^ shift.toNat : ℕ) : ℚ) / (b.coefficient * 10 ^ (-shift).toNat : ℕ) *
      10 ^ (a.exponent - b.exponent - shift) = a.magnitude / b.magnitude := by
  have ratio := pow_toNat_ratio shift
  have base : (10 : ℚ) ≠ 0 := by norm_num
  push_cast
  rw [mul_div_mul_comm, ratio, zpow_sub₀ base, zpow_sub₀ base, Decimal.magnitude, Decimal.magnitude]
  field_simp

theorem scaled_range (nonzeroA : a.coefficient ≠ 0) (nonzeroB : b.coefficient ≠ 0) {e : ℤ}
    (scale : e = a.exponent - b.exponent - (b.digits - a.digits + 29)) :
    10 ^ 28 * (10 : ℚ) ^ e < a.magnitude / b.magnitude ∧
      a.magnitude / b.magnitude < 10 ^ 30 * (10 : ℚ) ^ e := by
  have base : (10 : ℚ) ≠ 0 := by norm_num
  have lowA := Decimal.pow_adjusted_le nonzeroA
  have lowB := Decimal.pow_adjusted_le nonzeroB
  have highA := a.magnitude_lt_pow
  have highB := b.magnitude_lt_pow
  have posB : 0 < b.magnitude := lt_of_lt_of_le (by positivity) lowB
  have unit : (0 : ℚ) < 10 ^ e := by positivity
  constructor
  · have split : (10 : ℚ) ^ a.adjusted = 10 ^ 28 * 10 ^ e * 10 ^ (b.adjusted + 1) := by
      rw [← zpow_natCast, ← zpow_add₀ base, ← zpow_add₀ base]
      congr 1
      unfold Decimal.adjusted
      push_cast
      omega
    rw [lt_div_iff₀ posB]
    calc
      10 ^ 28 * 10 ^ e * b.magnitude < 10 ^ 28 * 10 ^ e * 10 ^ (b.adjusted + 1) := by gcongr
      _ = 10 ^ a.adjusted := split.symm
      _ ≤ a.magnitude := lowA
  · have split : (10 : ℚ) ^ (a.adjusted + 1) = 10 ^ 30 * 10 ^ e * 10 ^ b.adjusted := by
      rw [← zpow_natCast, ← zpow_add₀ base, ← zpow_add₀ base]
      congr 1
      unfold Decimal.adjusted
      push_cast
      omega
    rw [div_lt_iff₀ posB]
    calc
      a.magnitude < 10 ^ (a.adjusted + 1) := highA
      _ = 10 ^ 30 * 10 ^ e * 10 ^ b.adjusted := split
      _ ≤ 10 ^ 30 * 10 ^ e * b.magnitude := by gcongr

end Quotient

end Context

theorem quotient_sign (a b : Decimal) :
    a.toRat / b.toRat =
      if (a.negative != b.negative) then -(a.magnitude / b.magnitude)
      else a.magnitude / b.magnitude := by
  rw [a.toRat_eq, b.toRat_eq]
  cases a.negative <;> cases b.negative <;> simp [neg_div, div_neg]

end DiceNotation
