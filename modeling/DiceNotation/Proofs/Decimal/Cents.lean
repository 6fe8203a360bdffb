import DiceNotation.Decimal.Operation
import DiceNotation.Proofs.Decimal.Rounding

/-!
The context that arithmetic is done in. A decimal of at most 28 digits is put on cents by rounding
its value, and is refused if it has more digits than that in front of the point.
-/
namespace DiceNotation

open Text

/-- At most two places, and no power of ten in front of the point. -/
def Decimal.Placed (d : Decimal) : Prop := -2 ≤ d.exponent ∧ d.exponent ≤ 0

namespace Decimal

theorem roundCents_toRat (d : Decimal) :
    roundCents d.toRat =
      if d.negative then -halfUp (1 / 100) d.magnitude else halfUp (1 / 100) d.magnitude := by
  rw [toRat_eq, roundCents_signed d.magnitude_nonneg]

theorem digits_of_zero {d : Decimal} (zero : d.coefficient = 0) : d.digits = 1 := by
  rw [digits, zero]
  decide

end Decimal

namespace Context

theorem precision_cent : centContext.precision = 28 := rfl

theorem maxExponent_cent : centContext.maxExponent = 999999 := rfl

theorem tiny_cent : centContext.tiny = -1000026 := by decide

theorem carry_same {c : Context} {d : Decimal} (positive : 0 < c.precision)
    (h : d.coefficient ≤ 10 ^ c.precision) :
    (c.carry d).toRat = d.toRat ∧ (c.carry d).digits ≤ c.precision ∧
      d.exponent ≤ (c.carry d).exponent := by
  unfold carry
  split
  · rename_i long
    have full : 10 ^ c.precision ≤ d.coefficient := by
      by_contra less
      have short := (digitCount_le_iff positive).mpr (Nat.lt_of_not_le less)
      exact absurd long (Nat.not_lt.mpr short)
    have exact : d.coefficient = 10 ^ (c.precision - 1) * 10 := by
      rw [← Nat.pow_succ, Nat.succ_eq_add_one, Nat.sub_add_cancel positive]
      exact Nat.le_antisymm h full
    have tenth : d.coefficient / 10 = 10 ^ (c.precision - 1) := by
      rw [exact, Nat.mul_div_cancel _ (by decide)]
    refine ⟨?_, ?_, by dsimp only; omega⟩
    · simp only [Decimal.toRat, Decimal.signed, tenth]
      rw [exact, zpow_add₀ (by norm_num)]
      split <;> push_cast <;> ring
    · rw [Decimal.digits, digitCount_le_iff positive]
      dsimp only
      rw [tenth]
      exact Nat.pow_lt_pow_right (by decide) (by omega)
  · rename_i short
    exact ⟨rfl, by omega, le_refl _⟩

theorem quantize?_places {d : Decimal} (fine : d.exponent < -2) (short : d.digits ≤ 28) :
    ∃ r, centContext.quantize? d (-2) = some r ∧ r.exponent = -2 ∧ r.negative = d.negative ∧
      r.magnitude = halfUp (1 / 100) d.magnitude := by
  unfold quantize?
  by_cases zero : d.coefficient = 0
  · rw [if_pos zero]
    exact ⟨_, rfl, rfl, rfl, by simp [Decimal.magnitude, zero]⟩
  · have precision := precision_cent
    have top := maxExponent_cent
    have adjusted : d.adjusted ≤ 24 := by
      unfold Decimal.adjusted
      omega
    obtain ⟨n, places⟩ : ∃ n : ℕ, -2 = d.exponent + n := ⟨(-2 - d.exponent).toNat, by omega⟩
    have dropped : (-2 - d.exponent).toNat = n := by omega
    have less : Rounding.halfUp.dropDigits d.coefficient n ≤ 10 ^ 27 := by
      apply dropDigits_le
      have digits : d.digits ≤ 27 + n := by
        unfold Decimal.adjusted at adjusted
        omega
      exact Nat.lt_of_lt_of_le (lt_pow_digitCount _) (Nat.pow_le_pow_right (by decide) digits)
    have fits : digitCount (Rounding.halfUp.dropDigits d.coefficient n) ≤ 28 := by
      rw [digitCount_le_iff (by decide)]
      exact Nat.lt_of_le_of_lt less (by decide)
    have rounded := dropDigits_magnitude d.coefficient n d.exponent
    rw [← places] at rounded
    refine ⟨⟨d.negative, Rounding.halfUp.dropDigits d.coefficient n, -2⟩, ?_, rfl, rfl, ?_⟩
    · have coefficient : (if -2 ≤ d.exponent then d.coefficient * Nat.pow 10 (d.exponent - -2).toNat
          else centContext.rounding.dropDigits d.coefficient (-2 - d.exponent).toNat) =
          Rounding.halfUp.dropDigits d.coefficient n := by
        rw [if_neg (by omega), dropped]
        rfl
      rw [if_neg zero, if_neg (by omega)]
      dsimp only
      rw [coefficient, if_neg (by omega)]
    · have cent : (10 : ℚ) ^ (-2 : ℤ) = 1 / 100 := by norm_num
      rw [cent] at rounded
      simpa [Decimal.magnitude, cent] using rounded

theorem quantize?_whole {d : Decimal} (coarse : 0 < d.exponent)
    (small : d.magnitude < 10 ^ (28 : ℤ)) :
    ∃ r, centContext.quantize? d 0 = some r ∧ r.exponent = 0 ∧ r.negative = d.negative ∧
      r.magnitude = d.magnitude := by
  unfold quantize?
  by_cases zero : d.coefficient = 0
  · rw [if_pos zero]
    exact ⟨_, rfl, rfl, rfl, by simp [Decimal.magnitude, zero]⟩
  · have precision := precision_cent
    have top := maxExponent_cent
    have adjusted := Decimal.adjusted_lt_of_magnitude_lt zero small
    obtain ⟨n, places⟩ : ∃ n : ℕ, d.exponent = n := ⟨d.exponent.toNat, by omega⟩
    have magnitude : d.magnitude = (d.coefficient * 10 ^ n : ℕ) := by
      rw [Decimal.magnitude, places, zpow_natCast]
      push_cast
      rfl
    have fits : digitCount (d.coefficient * 10 ^ n) ≤ 28 := by
      rw [digitCount_le_iff (by decide)]
      rw [magnitude] at small
      exact_mod_cast small
    refine ⟨⟨d.negative, d.coefficient * 10 ^ n, 0⟩, ?_, rfl, rfl, ?_⟩
    · have coefficient : (if 0 ≤ d.exponent then d.coefficient * Nat.pow 10 (d.exponent - 0).toNat
          else centContext.rounding.dropDigits d.coefficient (0 - d.exponent).toNat) =
          d.coefficient * 10 ^ n := by
        have scaled : (d.exponent - 0).toNat = n := by omega
        rw [if_pos (by omega), scaled]
        rfl
      rw [if_neg zero, if_neg (by omega)]
      dsimp only
      rw [coefficient, if_neg (by omega)]
    · rw [magnitude]
      simp [Decimal.magnitude]

end Context

namespace Decimal

theorem halfUp_of_places {d : Decimal} (h : -2 ≤ d.exponent) :
    halfUp (1 / 100) d.magnitude = d.magnitude := by
  have cent : (10 : ℚ) ^ (-2 : ℤ) = 1 / 100 := by norm_num
  have scaled := magnitude_eq_scaled d h
  rw [cent] at scaled
  rw [scaled]
  exact halfUp_multiple (by norm_num) _

theorem onCents?_rounds {d : Decimal} (short : d.digits ≤ 28) (small : d.magnitude < 10 ^ 28) :
    ∃ r, d.onCents? centContext = some r ∧ r.Placed ∧ r.toRat = roundCents d.toRat := by
  obtain ⟨r, placed, low, high, sign, rounded⟩ : ∃ r : Decimal,
      (if d.exponent < -2 then centContext.quantize? d (-2)
        else if 0 < d.exponent then centContext.quantize? d 0 else some d) = some r ∧
      -2 ≤ r.exponent ∧ r.exponent ≤ 0 ∧ r.negative = d.negative ∧
        r.magnitude = halfUp (1 / 100) d.magnitude := by
    split
    · rename_i fine
      obtain ⟨r, quantized, places, sign, magnitude⟩ := Context.quantize?_places fine short
      exact ⟨r, quantized, by omega, by omega, sign, magnitude⟩
    · split
      · rename_i coarse
        obtain ⟨r, quantized, places, sign, magnitude⟩ := Context.quantize?_whole coarse
          (by exact_mod_cast small)
        rw [← halfUp_of_places (d := d) (by omega)] at magnitude
        exact ⟨r, quantized, by omega, by omega, sign, magnitude⟩
      · exact ⟨d, rfl, by omega, by omega, rfl, (halfUp_of_places (by omega)).symm⟩
  have value : r.toRat = roundCents d.toRat := by
    rw [roundCents_toRat, toRat_eq, sign, rounded]
  unfold onCents?
  dsimp only
  rw [placed, Option.map_some]
  by_cases zero : r.isZero = true
  · rw [if_pos zero]
    refine ⟨_, rfl, ⟨low, high⟩, ?_⟩
    have none := (isZero_iff r).mp zero
    have cleared : isZero { r with negative := false } = true := zero
    rw [(isZero_iff _).mp cleared, ← value, none]
  · rw [if_neg zero]
    exact ⟨r, rfl, ⟨low, high⟩, value⟩

theorem onCents?_eq_none {d : Decimal} (short : d.digits ≤ 28) (large : 10 ^ 28 ≤ d.magnitude) :
    d.onCents? centContext = none := by
  have nonzero : d.coefficient ≠ 0 := by
    rw [ne_eq, ← magnitude_eq_zero]
    intro zero
    norm_num [zero] at large
  have long : 28 ≤ d.adjusted := by
    have power : (10 : ℚ) ^ (28 : ℤ) < 10 ^ (d.adjusted + 1) :=
      lt_of_le_of_lt (by exact_mod_cast large) d.magnitude_lt_pow
    have less := (zpow_lt_zpow_iff_right₀ (by norm_num)).mp power
    omega
  have coarse : 0 < d.exponent := by
    unfold adjusted at long
    omega
  have precision := Context.precision_cent
  have refused : centContext.quantize? d 0 = none := by
    unfold Context.quantize?
    rw [if_neg nonzero, if_pos (by omega)]
  unfold onCents?
  rw [if_neg (by omega), if_pos coarse, refused]
  rfl

end Decimal
end DiceNotation
