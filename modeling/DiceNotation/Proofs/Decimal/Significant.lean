import DiceNotation.Proofs.Decimal.Sums
import Mathlib.Data.Int.Log

/-!
Rounding to the first 28 digits, and what it does to a number that is rounded to cents after that.
-/
namespace DiceNotation

def lastUnit (x : ℚ) : ℚ := 10 ^ (Int.log 10 |x| - 27)

def significant (x : ℚ) : ℚ := roundTo (lastUnit x) x

/-- Below a half of a cent by at most half a unit of the 28th digit: rounding to 28 digits goes up
to that half. -/
def JustBelowHalf (x : ℚ) : Prop :=
  ∃ n : ℤ, n * (1 / 100) + 1 / 100 / 2 - lastUnit x / 2 ≤ |x| ∧ |x| < n * (1 / 100) + 1 / 100 / 2

/-- The number of cents has 28 digits at most, and the number does not go up to a half of a cent
first. From 10^25 on it cannot, as no places behind the cents are kept. -/
structure RoundsOnce (x : ℚ) : Prop where
  room : Representable 28 (roundCents x)
  clear : |x| < 10 ^ 25 → ¬ JustBelowHalf x

section LastUnit

variable {x : ℚ}

theorem lastUnit_pos (x : ℚ) : 0 < lastUnit x := by
  unfold lastUnit
  positivity

@[simp] theorem lastUnit_abs (x : ℚ) : lastUnit |x| = lastUnit x := by
  unfold lastUnit
  rw [abs_abs]

theorem log_eq {k : ℤ} (low : (10 : ℚ) ^ k ≤ x) (high : x < 10 ^ (k + 1)) : Int.log 10 x = k := by
  have pos : 0 < x := lt_of_lt_of_le (by positivity) low
  have least := (Int.zpow_le_iff_le_log (b := 10) (by decide) pos).mp (by exact_mod_cast low)
  have most := (Int.lt_zpow_iff_log_lt (b := 10) (by decide) pos).mp (by exact_mod_cast high)
  omega

theorem lastUnit_eq {k : ℤ} (low : (10 : ℚ) ^ k ≤ |x|) (high : |x| < 10 ^ (k + 1)) :
    lastUnit x = 10 ^ (k - 27) := by
  rw [lastUnit, log_eq low high]

theorem lastUnit_places {k : ℤ} (positive : 0 < k) (small : |x| < 10 ^ k) :
    ∃ n : ℕ, (10 : ℚ) ^ (k - 28) = 10 ^ n * lastUnit x := by
  have below : Int.log 10 |x| < k := by
    by_cases zero : x = 0
    · simpa [zero] using positive
    · exact (Int.lt_zpow_iff_log_lt (b := 10) (by decide) (abs_pos.mpr zero)).mp
        (by exact_mod_cast small)
  refine ⟨(k - 1 - Int.log 10 |x|).toNat, ?_⟩
  rw [lastUnit, ← zpow_natCast, ← zpow_add₀ (by norm_num)]
  congr 1
  omega

theorem lastUnit_le {k : ℤ} (positive : 0 < k) (small : |x| < 10 ^ k) :
    lastUnit x ≤ 10 ^ (k - 28) := by
  obtain ⟨n, places⟩ := lastUnit_places positive small
  have most : (1 : ℚ) ≤ 10 ^ n := one_le_pow₀ (by norm_num)
  have pos := lastUnit_pos x
  rw [places]
  nlinarith

theorem lastUnit_large {k : ℤ} (large : (10 : ℚ) ^ k ≤ |x|) :
    ∃ n : ℕ, lastUnit x = 10 ^ n * 10 ^ (k - 27) := by
  have pos : 0 < |x| := lt_of_lt_of_le (by positivity) large
  have least := (Int.zpow_le_iff_le_log (b := 10) (by decide) pos).mp (by exact_mod_cast large)
  refine ⟨(Int.log 10 |x| - k).toNat, ?_⟩
  rw [lastUnit, ← zpow_natCast, ← zpow_add₀ (by norm_num)]
  congr 1
  omega

theorem abs_significant (x : ℚ) : |significant x| = halfUp (lastUnit x) |x| :=
  abs_roundTo (lastUnit_pos x) x

@[simp] theorem significant_zero : significant 0 = 0 := by simp [significant, roundTo]

theorem significant_signed (nonneg : 0 ≤ x) (negative : Bool) :
    significant (if negative then -x else x) =
      if negative then -halfUp (lastUnit x) x else halfUp (lastUnit x) x := by
  have unit : lastUnit (if negative then -x else x) = lastUnit x := by
    rw [← lastUnit_abs]
    cases negative <;> simp
  rw [significant, unit, roundTo_signed nonneg]

theorem lastUnit_bounds (nonzero : x ≠ 0) :
    10 ^ 27 * lastUnit x ≤ |x| ∧ |x| < 10 ^ 28 * lastUnit x := by
  have low := Int.zpow_log_le_self (b := 10) (by decide) (abs_pos.mpr nonzero)
  have high := Int.lt_zpow_succ_log_self (b := 10) (by decide) |x|
  have first (n : ℕ) : (10 : ℚ) ^ n * lastUnit x = 10 ^ (Int.log 10 |x| + (n - 27)) := by
    rw [lastUnit, ← zpow_natCast, ← zpow_add₀ (by norm_num)]
    congr 1
    omega
  rw [first, first]
  exact ⟨by simpa using low, by simpa using high⟩

theorem significant_lt (small : |x| < 10 ^ 28 - 1 / 2) : |significant x| < 10 ^ 28 := by
  have below : |x| < (10 : ℚ) ^ (28 : ℤ) := by
    norm_num
    linarith
  obtain ⟨n, whole⟩ := lastUnit_places (k := 28) (by decide) below
  have one : 10 ^ n * lastUnit x = 1 := by simpa using whole.symm
  have fine : lastUnit x ≤ 1 := by simpa using lastUnit_le (k := 28) (by decide) below
  have multiple : ((10 ^ 28 * 10 ^ n : ℤ) : ℚ) * lastUnit x = 10 ^ 28 := by
    push_cast
    rw [mul_assoc, one]
    norm_num
  rw [abs_significant, ← multiple]
  refine halfUp_lt_multiple (lastUnit_pos x) ?_
  rw [multiple]
  linarith

theorem le_significant (large : 10 ^ 28 - 1 / 2 ≤ |x|) : 10 ^ 28 ≤ |significant x| := by
  rw [abs_significant]
  by_cases long : 10 ^ 28 ≤ |x|
  -- The first digit is a multiple of the unit.
  · obtain ⟨n, whole⟩ := lastUnit_large (k := 28) (x := x) (by exact_mod_cast long)
    have most : (1 : ℚ) ≤ 10 ^ n := one_le_pow₀ (by norm_num)
    have coarse : 10 ≤ lastUnit x := by
      rw [whole]
      norm_num
      linarith
    have nonzero : x ≠ 0 := by
      rintro rfl
      norm_num at long
    have first := multiple_le_halfUp (lastUnit_pos x) (n := 10 ^ 27) (x := |x|)
      (by exact_mod_cast (lastUnit_bounds nonzero).1)
    push_cast at first
    linarith
  · have unit : lastUnit x = 1 := by
      have low : (10 : ℚ) ^ (27 : ℤ) ≤ |x| := by
        norm_num at large ⊢
        linarith
      have high : |x| < (10 : ℚ) ^ (27 + 1 : ℤ) := by
        norm_num at long ⊢
        linarith
      simpa using lastUnit_eq low high
    have up : halfUp 1 |x| = (10 ^ 28 : ℤ) * 1 := by
      rw [halfUp_eq_iff one_pos]
      norm_num at large long ⊢
      constructor <;> linarith
    rw [unit, up]
    norm_num

theorem le_significant_iff (x : ℚ) : 10 ^ 28 ≤ |significant x| ↔ 10 ^ 28 - 1 / 2 ≤ |x| := by
  refine ⟨fun large => ?_, le_significant⟩
  by_contra small
  exact absurd large (not_le.mpr (significant_lt (not_le.mp small)))

end LastUnit

namespace Decimal

theorem lastUnit_toRat {d : Decimal} (nonzero : d.coefficient ≠ 0) :
    lastUnit d.toRat = 10 ^ (d.adjusted - 27) := by
  apply lastUnit_eq
  · rw [d.abs_toRat]
    exact pow_adjusted_le nonzero
  · rw [d.abs_toRat]
    exact d.magnitude_lt_pow

theorem significant_of_digits {d : Decimal} (short : d.digits ≤ 28) :
    significant d.toRat = d.toRat := by
  by_cases zero : d.coefficient = 0
  · have none : d.toRat = 0 := by simp [toRat, signed, zero]
    rw [none, significant_zero]
  · have fine : d.adjusted - 27 ≤ d.exponent := by
      unfold adjusted
      omega
    have whole := d.magnitude_eq_scaled fine
    generalize scaleUp d.coefficient (d.exponent - (d.adjusted - 27)).toNat = n at whole
    have kept : halfUp (10 ^ (d.adjusted - 27)) d.magnitude = d.magnitude := by
      rw [whole]
      exact halfUp_multiple (by positivity) n
    rw [significant, lastUnit_toRat zero, d.toRat_eq, roundTo_signed d.magnitude_nonneg, kept]

end Decimal

theorem representable_of_le {n digits : ℕ} (h : n ≤ 10 ^ digits) (positive : 0 < digits) (k : ℤ) :
    Representable digits (n * (10 : ℚ) ^ k) := by
  rcases Nat.lt_or_eq_of_le h with less | full
  · exact ⟨n, k, by simpa using by exact_mod_cast less, by simp⟩
  · refine ⟨1, digits + k, ?_, ?_⟩
    · rw [abs_one]
      exact_mod_cast Nat.one_lt_pow (by omega) (by decide)
    · rw [full, zpow_add₀ (by norm_num)]
      simp

theorem Representable.neg {digits : ℕ} {q : ℚ} (h : Representable digits q) :
    Representable digits (-q) := by
  obtain ⟨n, k, short, rfl⟩ := h
  exact ⟨-n, k, by rwa [abs_neg], by push_cast; ring⟩

theorem representable_abs {digits : ℕ} {q : ℚ} :
    Representable digits |q| ↔ Representable digits q := by
  rcases abs_choice q with same | negated
  · rw [same]
  · rw [negated]
    exact ⟨fun h => by simpa using h.neg, Representable.neg⟩

section Cents

variable {x : ℚ}

theorem halfUp_natural {u : ℚ} (pos : 0 < u) (nonneg : 0 ≤ x) : ∃ n : ℕ, halfUp u x = n * u := by
  obtain ⟨n, eq⟩ := halfUp_exists u x
  have least := halfUp_nonneg pos nonneg
  rw [eq] at least
  have natural : 0 ≤ n := by exact_mod_cast nonneg_of_mul_nonneg_left least pos
  exact ⟨n.toNat, by rw [eq]; congr 1; exact_mod_cast (Int.toNat_of_nonneg natural).symm⟩

theorem representable_roundCents :
    Representable 28 (roundCents x) ↔ Representable 28 (halfUp (1 / 100) |x|) := by
  have size : |roundCents x| = halfUp (1 / 100) |x| := abs_roundTo (by norm_num) x
  rw [← representable_abs, size]

theorem representable_cents (small : |x| < 10 ^ 26) : Representable 28 (roundCents x) := by
  obtain ⟨n, eq⟩ := halfUp_natural (u := 1 / 100) (by norm_num) (abs_nonneg x)
  have most := (halfUp_bounds (u := 1 / 100) (x := |x|) (by norm_num)).2
  have few : n ≤ 10 ^ 28 := by
    rw [eq] at most
    have bound : (n : ℚ) < 10 ^ 28 + 1 := by linarith
    exact Nat.lt_succ_iff.mp (by exact_mod_cast bound)
  have cent : (10 : ℚ) ^ (-2 : ℤ) = 1 / 100 := by norm_num
  rw [representable_roundCents, eq, ← cent]
  exact representable_of_le few (by decide) _

theorem halfUp_significant_small (small : |x| < 10 ^ 25) :
    halfUp (1 / 100) (halfUp (lastUnit x) |x|) = halfUp (1 / 100) |x| ↔ ¬ JustBelowHalf x := by
  obtain ⟨n, places⟩ := lastUnit_places (k := 25) (by decide) (by exact_mod_cast small)
  have coarse : (1 / 100 : ℚ) = 2 * (5 * 10 ^ n : ℤ) * lastUnit x := by
    norm_num at places
    push_cast
    linarith
  rw [halfUp_halfUp_iff (lastUnit_pos x) coarse (by norm_num)]
  simp only [JustBelowHalf, not_exists, not_and', not_le]

theorem halfUp_significant_middle (low : 10 ^ 25 ≤ |x|) (high : |x| < 10 ^ 26) :
    halfUp (1 / 100) (halfUp (lastUnit x) |x|) = halfUp (1 / 100) |x| := by
  have unit : lastUnit x = 1 / 100 := by
    have power := lastUnit_eq (k := 25) (x := x) (by exact_mod_cast low) (by exact_mod_cast high)
    norm_num at power ⊢
    exact power
  obtain ⟨n, eq⟩ := halfUp_exists (1 / 100) |x|
  rw [unit, eq]
  exact halfUp_multiple (by norm_num) n

theorem halfUp_significant_large (large : 10 ^ 26 ≤ |x|) :
    halfUp (1 / 100) (halfUp (lastUnit x) |x|) = halfUp (1 / 100) |x| ↔
      Representable 28 (halfUp (1 / 100) |x|) := by
  have pos := lastUnit_pos x
  have nonzero : x ≠ 0 := by
    rintro rfl
    norm_num at large
  obtain ⟨low, high⟩ := lastUnit_bounds nonzero
  obtain ⟨n, places⟩ := lastUnit_large (k := 26) (by exact_mod_cast large)
  have cents : lastUnit x = (10 ^ (n + 1) : ℤ) * (1 / 100) := by
    rw [places, pow_succ]
    push_cast
    norm_num
    ring
  have coarse : 1 / 10 ≤ lastUnit x := by
    have most : (1 : ℚ) ≤ 10 ^ n := one_le_pow₀ (by norm_num)
    rw [cents, pow_succ]
    push_cast
    linarith
  have multiple (a : ℤ) :
      (a : ℚ) * lastUnit x = ((a * 10 ^ (n + 1) : ℤ) : ℚ) * (1 / 100) := by
    rw [cents]
    push_cast
    ring
  obtain ⟨a, first⟩ := halfUp_natural pos (abs_nonneg x)
  have kept : halfUp (1 / 100) (halfUp (lastUnit x) |x|) = halfUp (lastUnit x) |x| := by
    have whole := multiple a
    rw [Int.cast_natCast] at whole
    rw [first, whole]
    exact halfUp_multiple (by norm_num) _
  rw [kept]
  constructor
  · intro same
    have few : a ≤ 10 ^ 28 := by
      have most := (halfUp_bounds (x := |x|) pos).2
      rw [first] at most
      have bound : (a : ℚ) < 10 ^ 28 + 1 := by
        by_contra more
        nlinarith
      exact Nat.lt_succ_iff.mp (by exact_mod_cast bound)
    rw [← same, first]
    exact representable_of_le few (by decide) _
  -- A number of cents of 28 digits is a multiple of the unit, and nearer than half of it.
  · rintro ⟨b, k, short, value⟩
    obtain ⟨below, above⟩ := halfUp_bounds (u := 1 / 100) (x := |x|) (by norm_num)
    have least : 10 ^ 27 * lastUnit x ≤ b * 10 ^ k := by
      have whole := multiple (10 ^ 27)
      rw [Int.cast_pow, Int.cast_ofNat] at whole
      rw [whole] at low
      rw [← value, whole]
      exact multiple_le_halfUp (by norm_num) low
    have finer : Int.log 10 |x| - 27 ≤ k := by
      have most : (b : ℚ) * 10 ^ k < 10 ^ 28 * 10 ^ k := by
        have bound : (b : ℚ) < 10 ^ 28 := by exact_mod_cast (abs_lt.mp short).2
        gcongr
      have power : (10 : ℚ) ^ (Int.log 10 |x| - 27) < 10 ^ (k + 1) := by
        rw [zpow_add₀ (by norm_num), zpow_one]
        change lastUnit x < _
        linarith
      have less := (zpow_lt_zpow_iff_right₀ (by norm_num)).mp power
      omega
    obtain ⟨m, split⟩ : ∃ m : ℕ, k = m + (Int.log 10 |x| - 27) :=
      ⟨(k - (Int.log 10 |x| - 27)).toNat, by omega⟩
    have units : b * (10 : ℚ) ^ k = (b * 10 ^ m : ℤ) * lastUnit x := by
      rw [split, zpow_add₀ (by norm_num), zpow_natCast, lastUnit]
      push_cast
      ring
    rw [value, units] at below above ⊢
    rw [halfUp_eq_iff pos]
    constructor <;> linarith

/-- Rounding to 28 digits first does not show exactly in what rounds once. -/
theorem roundCents_significant_iff (x : ℚ) :
    roundCents (significant x) = roundCents x ↔ RoundsOnce x := by
  have signed : roundCents (significant x) = roundCents x ↔
      halfUp (1 / 100) (halfUp (lastUnit x) |x|) = halfUp (1 / 100) |x| := by
    have nonneg := halfUp_nonneg (lastUnit_pos x) (abs_nonneg x)
    obtain ⟨negative, eq⟩ : ∃ negative : Bool, x = if negative then -|x| else |x| := by
      rcases abs_choice x with same | negated
      · exact ⟨false, by simp [same]⟩
      · exact ⟨true, by simp [negated]⟩
    have first := significant_signed (abs_nonneg x) negative
    have second := roundCents_signed (abs_nonneg x) negative
    rw [← eq, lastUnit_abs] at first
    rw [← eq] at second
    rw [first, second, roundCents_signed nonneg]
    cases negative with
    | false => rfl
    | true => exact neg_inj
  rw [signed]
  by_cases small : |x| < 10 ^ 25
  · have room := representable_cents (x := x) (by linarith)
    rw [halfUp_significant_small small]
    exact ⟨fun clear => ⟨room, fun _ => clear⟩, fun h => h.clear small⟩
  · by_cases middle : |x| < 10 ^ 26
    · have same := halfUp_significant_middle (not_lt.mp small) middle
      exact ⟨fun _ => ⟨representable_cents middle, fun below => absurd below small⟩, fun _ => same⟩
    · rw [halfUp_significant_large (not_lt.mp middle), ← representable_roundCents]
      exact ⟨fun room => ⟨room, fun below => absurd below small⟩, fun h => h.room⟩

theorem not_justBelowHalf_of_multiple {w : ℚ} (halves count : ℤ) (fine : lastUnit x ≤ w)
    (half : 1 / 100 / 2 = halves * w) (whole : |x| = count * w) : ¬ JustBelowHalf x := by
  rintro ⟨n, low, high⟩
  have pos := lastUnit_pos x
  have place : (n : ℚ) * (1 / 100) + 1 / 100 / 2 = ((2 * n + 1) * halves : ℤ) * w := by
    push_cast
    rw [mul_assoc, ← half]
    ring
  rw [place, whole] at low high
  have less := lt_of_mul_lt_mul_right high (by linarith)
  have apart : count + 1 ≤ (2 * n + 1) * halves := by exact_mod_cast less
  have cast : (count : ℚ) + 1 ≤ ((2 * n + 1) * halves : ℤ) := by exact_mod_cast apart
  nlinarith

theorem not_justBelowHalf_of_quotient {a b : ℕ} (small : a < 10 ^ 25) (value : |x| = a / b) :
    ¬ JustBelowHalf x := by
  by_cases zero : x = 0
  · refine not_justBelowHalf_of_multiple (w := 1 / 1000) 5 0 ?_ ?_ ?_
    · have fine := lastUnit_le (k := 1) (x := x) (by decide) (by simp [zero])
      norm_num at fine ⊢
      linarith
    · norm_num
    · simp [zero]
  · have pos : 0 < b := by
      apply Nat.pos_of_ne_zero
      rintro rfl
      simp [zero] at value
    rintro ⟨n, low, high⟩
    have first := (lastUnit_bounds zero).1
    rw [value] at first low high
    have apart := quotient_clear pos small first n high
    linarith

end Cents

end DiceNotation
