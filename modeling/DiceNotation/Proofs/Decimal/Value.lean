import DiceNotation.Decimal.Basic
import Mathlib.Algebra.Order.Field.Power
import Mathlib.Data.Rat.Cast.Order
import Mathlib.Tactic.FieldSimp
import Mathlib.Tactic.Linarith
import Mathlib.Tactic.NormNum
import Mathlib.Tactic.Positivity
import Mathlib.Tactic.Ring

/-!
The number that a decimal stands for. The comparisons of decimals, which never write a power of ten
out, are those of these numbers.
-/
namespace DiceNotation

open Text

theorem digitCount_pos (n : Nat) : 0 < digitCount n := Nat.length_toDigits_pos

theorem digitCount_le_iff {n k : Nat} (h : 0 < k) : digitCount n ≤ k ↔ n < 10 ^ k :=
  Nat.length_toDigits_le_iff (by decide) h

theorem lt_pow_digitCount (n : Nat) : n < 10 ^ digitCount n :=
  (digitCount_le_iff (digitCount_pos n)).mp (Nat.le_refl _)

theorem pow_digitCount_le {n : Nat} (h : n ≠ 0) : 10 ^ (digitCount n - 1) ≤ n := by
  by_cases one : digitCount n = 1
  · rw [one]
    omega
  · have pos := digitCount_pos n
    by_contra small
    have fewer : digitCount n ≤ digitCount n - 1 :=
      (digitCount_le_iff (by omega)).mpr (by omega)
    omega

namespace Decimal

def magnitude (d : Decimal) : ℚ := d.coefficient * (10 : ℚ) ^ d.exponent

def toRat (d : Decimal) : ℚ := d.signed * (10 : ℚ) ^ d.exponent

theorem magnitude_nonneg (d : Decimal) : 0 ≤ d.magnitude := by
  unfold magnitude
  positivity

theorem magnitude_eq_zero {d : Decimal} : d.magnitude = 0 ↔ d.coefficient = 0 := by
  have base : (10 : ℚ) ^ d.exponent ≠ 0 := by positivity
  simp [magnitude, base]

theorem toRat_eq (d : Decimal) : d.toRat = if d.negative then -d.magnitude else d.magnitude := by
  unfold toRat signed magnitude
  split <;> push_cast <;> ring

theorem abs_toRat (d : Decimal) : |d.toRat| = d.magnitude := by
  rw [toRat_eq]
  split
  · rw [abs_neg, abs_of_nonneg d.magnitude_nonneg]
  · exact abs_of_nonneg d.magnitude_nonneg

@[simp] theorem toRat_ofInt (n : Int) : (ofInt n).toRat = n := by
  by_cases negative : n < 0
  · have magnitude : (n.natAbs : Int) = -n := by omega
    simp [toRat, signed, ofInt, negative, magnitude]
  · have magnitude : (n.natAbs : Int) = n := by omega
    simp [toRat, signed, ofInt, negative, magnitude]

theorem toRat_neg (d : Decimal) : d.neg.toRat = -d.toRat := by
  cases h : d.negative <;> simp [toRat, signed, neg, h]

theorem isZero_iff (d : Decimal) : d.isZero = true ↔ d.toRat = 0 := by
  rw [← abs_eq_zero, abs_toRat, magnitude_eq_zero]
  simp [isZero]

theorem scaleUp_eq (n k : Nat) : scaleUp n k = n * 10 ^ k := by
  unfold scaleUp
  split <;> simp_all

theorem magnitude_eq_scaled (d : Decimal) {exponent : Int} (h : exponent ≤ d.exponent) :
    d.magnitude =
      (scaleUp d.coefficient (d.exponent - exponent).toNat : ℕ) * (10 : ℚ) ^ exponent := by
  have split : (10 : ℚ) ^ d.exponent = 10 ^ (d.exponent - exponent).toNat * 10 ^ exponent := by
    rw [← zpow_natCast, ← zpow_add₀ (by norm_num)]
    congr 1
    omega
  rw [magnitude, scaleUp_eq, split]
  push_cast
  ring

theorem toRat_eq_units (d : Decimal) {exponent : Int} (h : exponent ≤ d.exponent) :
    d.toRat = d.unitsOf exponent * (10 : ℚ) ^ exponent := by
  rw [toRat_eq, magnitude_eq_scaled d h]
  unfold unitsOf
  split <;> push_cast <;> ring

theorem pow_adjusted_le {d : Decimal} (h : d.coefficient ≠ 0) :
    (10 : ℚ) ^ d.adjusted ≤ d.magnitude := by
  have pos := digitCount_pos d.coefficient
  have low : (10 : ℚ) ^ (d.digits - 1) ≤ d.coefficient := by
    exact_mod_cast pow_digitCount_le h
  have split : (10 : ℚ) ^ d.adjusted = 10 ^ (d.digits - 1) * 10 ^ d.exponent := by
    rw [← zpow_natCast, ← zpow_add₀ (by norm_num)]
    congr 1
    unfold adjusted digits
    omega
  rw [split, magnitude]
  gcongr

theorem magnitude_lt_pow (d : Decimal) : d.magnitude < (10 : ℚ) ^ (d.adjusted + 1) := by
  have high : (d.coefficient : ℚ) < 10 ^ d.digits := by
    exact_mod_cast lt_pow_digitCount d.coefficient
  have split : (10 : ℚ) ^ (d.adjusted + 1) = 10 ^ d.digits * 10 ^ d.exponent := by
    rw [← zpow_natCast, ← zpow_add₀ (by norm_num)]
    congr 1
    unfold adjusted
    omega
  rw [split, magnitude]
  have base : (0 : ℚ) < 10 ^ d.exponent := by positivity
  gcongr

theorem adjusted_lt_of_magnitude_lt {d : Decimal} {k : Int} (h : d.coefficient ≠ 0)
    (small : d.magnitude < (10 : ℚ) ^ k) : d.adjusted < k := by
  by_contra big
  have low := pow_adjusted_le h
  have mono : (10 : ℚ) ^ k ≤ 10 ^ d.adjusted := zpow_le_zpow_right₀ (by norm_num) (by omega)
  linarith

theorem magnitudeLt_iff (a b : Decimal) : a.magnitudeLt b = true ↔ a.magnitude < b.magnitude := by
  by_cases zeroB : b.coefficient = 0
  · simp [magnitudeLt, zeroB, magnitude_eq_zero.mpr zeroB, a.magnitude_nonneg]
  by_cases zeroA : a.coefficient = 0
  · have pos : 0 < b.magnitude :=
      lt_of_le_of_ne b.magnitude_nonneg (Ne.symm (by simpa [magnitude_eq_zero] using zeroB))
    simp [magnitudeLt, zeroA, zeroB, magnitude_eq_zero.mpr zeroA, pos]
  by_cases same : a.adjusted = b.adjusted
  · have base : (0 : ℚ) < 10 ^ min a.exponent b.exponent := by positivity
    have shiftA : a.exponent - min a.exponent b.exponent = max 0 (a.exponent - b.exponent) := by
      omega
    have shiftB : b.exponent - min a.exponent b.exponent = max 0 (b.exponent - a.exponent) := by
      omega
    have scaledA := a.magnitude_eq_scaled (Int.min_le_left a.exponent b.exponent)
    have scaledB := b.magnitude_eq_scaled (Int.min_le_right a.exponent b.exponent)
    rw [shiftA] at scaledA
    rw [shiftB] at scaledB
    have places (n : Int) : (max 0 n).toNat = n.toNat := by omega
    rw [places] at scaledA scaledB
    rw [scaledA, scaledB, mul_lt_mul_iff_left₀ base, Nat.cast_lt]
    simp [magnitudeLt, zeroA, zeroB, same]
  · have lowA := pow_adjusted_le zeroA
    have lowB := pow_adjusted_le zeroB
    have highA := a.magnitude_lt_pow
    have highB := b.magnitude_lt_pow
    simp only [magnitudeLt, zeroA, zeroB, same, if_false, decide_eq_true_eq]
    constructor
    · intro less
      have mono : (10 : ℚ) ^ (a.adjusted + 1) ≤ 10 ^ b.adjusted :=
        zpow_le_zpow_right₀ (by norm_num) (by omega)
      linarith
    · intro less
      by_contra more
      have mono : (10 : ℚ) ^ (b.adjusted + 1) ≤ 10 ^ a.adjusted :=
        zpow_le_zpow_right₀ (by norm_num) (by omega)
      linarith

theorem toRat_eq_sign (d : Decimal) : d.toRat = d.signed.sign * d.magnitude := by
  have parts : d.signed = d.signed.sign * d.signed.natAbs := (Int.sign_mul_natAbs d.signed).symm
  have size : d.signed.natAbs = d.coefficient := by
    unfold signed
    split <;> omega
  rw [size] at parts
  rw [toRat, parts, magnitude]
  simp only [Int.sign_mul, Int.sign_sign, Int.cast_mul, Int.cast_natCast]
  by_cases zero : d.coefficient = 0
  · simp [zero]
  · rw [Int.sign_natCast_of_ne_zero zero]
    simp [mul_assoc]

theorem sign_cases (d : Decimal) :
    d.signed.sign = 0 ∧ d.magnitude = 0 ∨
      (d.signed.sign = 1 ∨ d.signed.sign = -1) ∧ 0 < d.magnitude := by
  by_cases zero : d.coefficient = 0
  · exact .inl ⟨by simp [signed, zero], magnitude_eq_zero.mpr zero⟩
  · have nonzero : d.signed ≠ 0 := by
      unfold signed
      split <;> omega
    have pos : 0 < d.magnitude :=
      lt_of_le_of_ne d.magnitude_nonneg (Ne.symm (by simpa [magnitude_eq_zero] using zero))
    rcases Int.lt_or_gt_of_ne nonzero with less | more
    · exact .inr ⟨.inr (Int.sign_eq_neg_one_of_neg less), pos⟩
    · exact .inr ⟨.inl (Int.sign_eq_one_of_pos more), pos⟩

theorem lt_iff (a b : Decimal) : a.lt b = true ↔ a.toRat < b.toRat := by
  rw [toRat_eq_sign, toRat_eq_sign]
  unfold lt
  rcases sign_cases a with ⟨signA, zeroA⟩ | ⟨signA | signA, posA⟩ <;>
    rcases sign_cases b with ⟨signB, zeroB⟩ | ⟨signB | signB, posB⟩ <;>
    simp [signA, signB, magnitudeLt_iff] <;> linarith

theorem le_iff (a b : Decimal) : a.le b = true ↔ a.toRat ≤ b.toRat := by
  have order := lt_iff b a
  rw [← not_lt, ← order]
  simp [le]

theorem trans_le {a b c : Decimal} (h : a.le b = true) (k : b.le c = true) : a.le c = true := by
  rw [le_iff] at *
  linarith

theorem total_le (a b : Decimal) : (a.le b || b.le a) = true := by
  rw [Bool.or_eq_true, le_iff, le_iff]
  exact le_total a.toRat b.toRat

end Decimal
end DiceNotation
