import DiceNotation.Proofs.Decimal.Exact
import DiceNotation.Roll.Repetition

/-!
Sums in a context. A sum that the precision can show is exact; any other is rounded, and an
accumulator stops growing once it is so much larger than what is added to it that every sum is
rounded back.
-/
namespace DiceNotation

open Text

namespace Rounding

variable (r : Rounding)

theorem quotient_le {n d m : ℕ} (pos : 0 < d) (h : 2 * n < (2 * m + 1) * d) :
    r.quotient n d ≤ m := by
  have whole := Nat.div_add_mod n d
  have less := Nat.mod_lt n pos
  have split : (2 * m + 1) * d = 2 * (d * m) + d := by ring
  have within : n / d ≤ m := by
    rw [← Nat.lt_succ_iff, Nat.div_lt_iff_lt_mul pos]
    have next : (m + 1) * d = d * m + d := by ring
    rw [Nat.succ_eq_add_one, next]
    omega
  unfold quotient
  rcases Nat.lt_or_eq_of_le within with below | equal
  · split
    · omega
    · split
      · cases r <;> dsimp only <;> omega
      · exact within
  · rw [equal] at whole
    rw [if_neg (by omega), if_neg (by omega)]
    exact within

theorem quotient_multiple (m : ℕ) {d : ℕ} (pos : 0 < d) : r.quotient (m * d) d = m := by
  unfold quotient
  rw [Nat.mul_mod_left, Nat.mul_div_cancel m pos, if_neg (by omega), if_neg (by omega)]

theorem dropDigits_bound {c n m : ℕ} (h : 2 * c < (2 * m + 1) * 10 ^ n) :
    r.dropDigits c n ≤ m := by
  unfold dropDigits
  split
  · exact Nat.zero_le m
  · exact r.quotient_le (Nat.pow_pos (by decide)) h

theorem dropDigits_multiple (m n : ℕ) : r.dropDigits (m * 10 ^ n) n = m := by
  unfold dropDigits
  split
  · rename_i few
    by_contra other
    have most := lt_pow_digitCount (m * 10 ^ n)
    have wide : 10 ^ digitCount (m * 10 ^ n) ≤ 10 ^ n := Nat.pow_le_pow_right (by decide) few.le
    have least : 1 * 10 ^ n ≤ m * 10 ^ n := Nat.mul_le_mul_right _ (by omega)
    omega
  · exact r.quotient_multiple m (Nat.pow_pos (by decide))

end Rounding

namespace Context

variable {c : Context} {d r : Decimal}

theorem fix?_eq_some (h : c.fix? d = some r) :
    (d.coefficient = 0 ∧ r = { d with exponent := min (max d.exponent c.tiny) c.maxExponent }) ∨
    (d.digits ≤ c.precision ∧ r = d) ∨
    ∃ n : ℕ, 0 < n ∧ d.exponent + n = max (d.exponent + d.digits - c.precision) c.tiny ∧
      r = c.carry ⟨d.negative, c.rounding.dropDigits d.coefficient n, d.exponent + n⟩ := by
  unfold fix? at h
  split at h
  · rename_i zero
    exact .inl ⟨zero, (Option.some.inj h).symm⟩
  · split at h
    · cases h
    · dsimp only at h
      split at h
      · rename_i long
        split at h
        · cases h
        · obtain ⟨n, least⟩ : ∃ n : ℕ, max (d.exponent + d.digits - c.precision) c.tiny =
              d.exponent + n :=
            ⟨(max (d.exponent + d.digits - c.precision) c.tiny - d.exponent).toNat, by omega⟩
          have dropped : (d.exponent + n - d.exponent).toNat = n := by omega
          rw [least, dropped] at h
          exact .inr (.inr ⟨n, by omega, least.symm, (Option.some.inj h).symm⟩)
      · exact .inr (.inl ⟨by omega, (Option.some.inj h).symm⟩)

theorem dropDigits_le_precision {n : ℕ} (least : d.exponent + n =
    max (d.exponent + d.digits - c.precision) c.tiny) :
    c.rounding.dropDigits d.coefficient n ≤ 10 ^ c.precision := by
  have most := lt_pow_digitCount d.coefficient
  have wide : 10 ^ d.digits ≤ 10 ^ (c.precision + n) :=
    Nat.pow_le_pow_right (by decide) (by omega)
  have bound : d.coefficient < 10 ^ (c.precision + n) := Nat.lt_of_lt_of_le most wide
  apply Rounding.dropDigits_bound
  rw [Nat.pow_add] at bound
  have pos : 0 < 10 ^ n := Nat.pow_pos (by decide)
  rw [Nat.add_mul, Nat.mul_assoc]
  omega

theorem fix?_digits (positive : 0 < c.precision) (h : c.fix? d = some r) :
    r.digits ≤ c.precision := by
  rcases fix?_eq_some h with ⟨zero, rfl⟩ | ⟨few, rfl⟩ | ⟨n, _, least, rfl⟩
  · change d.digits ≤ c.precision
    rw [Decimal.digits_of_zero zero]
    exact positive
  · exact few
  · exact (carry_same positive (dropDigits_le_precision least)).2.1

theorem le_fix?_exponent (positive : 0 < c.precision) (h : c.fix? d = some r) {k : ℤ}
    (low : k ≤ d.exponent) (high : k ≤ c.maxExponent) : k ≤ r.exponent := by
  rcases fix?_eq_some h with ⟨zero, rfl⟩ | ⟨few, rfl⟩ | ⟨n, _, least, rfl⟩
  · dsimp only
    omega
  · exact low
  · have raised := (carry_same (d := ⟨d.negative, c.rounding.dropDigits d.coefficient n,
      d.exponent + n⟩) positive (dropDigits_le_precision least)).2.2
    dsimp only at raised
    omega

end Context

def Representable (digits : ℕ) (q : ℚ) : Prop :=
  ∃ n k : ℤ, |n| < 10 ^ digits ∧ q = n * (10 : ℚ) ^ k

theorem Representable.magnitude {d : Decimal} {digits : ℕ} (h : Representable digits d.toRat) :
    ∃ m : ℕ, ∃ k : ℤ, m < 10 ^ digits ∧ d.magnitude = m * (10 : ℚ) ^ k := by
  obtain ⟨n, k, short, value⟩ := h
  refine ⟨n.natAbs, k, ?_, ?_⟩
  · zify
    exact short
  · have unit : (0 : ℚ) < 10 ^ k := by positivity
    rw [← d.abs_toRat, value, abs_mul, abs_of_pos unit, Nat.cast_natAbs, Int.cast_abs]

theorem Representable.zeros {d : Decimal} {digits n : ℕ} (h : Representable digits d.toRat)
    (positive : 0 < digits) (long : d.digits = digits + n) : 10 ^ n ∣ d.coefficient := by
  obtain ⟨m, k, short, value⟩ := h.magnitude
  have base : (10 : ℚ) ≠ 0 := by norm_num
  have unit : (0 : ℚ) < 10 ^ d.exponent := by positivity
  rw [Decimal.magnitude] at value
  by_cases zero : d.coefficient = 0
  · rw [zero]
    exact Nat.dvd_zero _
  rcases Int.lt_or_le k (d.exponent + n) with low | high
  · -- So small a power of ten leaves room for fewer digits than there are.
    have least := pow_digitCount_le zero
    rw [← Decimal.digits, long] at least
    have split : (10 : ℚ) ^ digits * 10 ^ (d.exponent + n - 1) =
        10 ^ (digits + n - 1) * 10 ^ d.exponent := by
      rw [← zpow_natCast, ← zpow_natCast, ← zpow_add₀ base, ← zpow_add₀ base]
      congr 1
      omega
    have less : (d.coefficient : ℚ) * 10 ^ d.exponent <
        10 ^ (digits + n - 1) * 10 ^ d.exponent := by
      have cast : (m : ℚ) < 10 ^ digits := by exact_mod_cast short
      have mono : (10 : ℚ) ^ k ≤ 10 ^ (d.exponent + n - 1) :=
        zpow_le_zpow_right₀ (by norm_num) (by omega)
      rw [value, ← split]
      have step : (0 : ℚ) < 10 ^ k := by positivity
      calc (m : ℚ) * 10 ^ k < 10 ^ digits * 10 ^ k := by gcongr
        _ ≤ 10 ^ digits * 10 ^ (d.exponent + n - 1) := by gcongr
    have below : d.coefficient < 10 ^ (digits + n - 1) := by
      exact_mod_cast lt_of_mul_lt_mul_right less unit.le
    omega
  · obtain ⟨j, shift⟩ : ∃ j : ℕ, k = d.exponent + n + j := ⟨(k - (d.exponent + n)).toNat, by omega⟩
    have scaled : (d.coefficient : ℚ) * 10 ^ d.exponent =
        (m * 10 ^ j * 10 ^ n : ℕ) * 10 ^ d.exponent := by
      rw [value, shift, zpow_add₀ base, zpow_add₀ base, zpow_natCast, zpow_natCast]
      push_cast
      ring
    have whole : d.coefficient = m * 10 ^ j * 10 ^ n := by
      exact_mod_cast mul_right_cancel₀ unit.ne' scaled
    rw [whole]
    exact Nat.dvd_mul_left _ _

namespace Context

variable {c : Context} {d r : Decimal}

theorem fix?_exact (positive : 0 < c.precision) (h : c.fix? d = some r) (low : c.tiny ≤ d.exponent)
    (short : Representable c.precision d.toRat) : r.toRat = d.toRat := by
  rcases fix?_eq_some h with ⟨zero, rfl⟩ | ⟨few, rfl⟩ | ⟨n, dropped, least, rfl⟩
  · simp [Decimal.toRat, Decimal.signed, zero]
  · rfl
  · obtain ⟨q, zeros⟩ := short.zeros (n := n) positive (by omega)
    rw [Nat.mul_comm] at zeros
    have rounded := (carry_same (d := ⟨d.negative, c.rounding.dropDigits d.coefficient n,
      d.exponent + n⟩) positive (dropDigits_le_precision least)).1
    rw [rounded, zeros, Rounding.dropDigits_multiple]
    simp only [Decimal.toRat, Decimal.signed, zeros]
    rw [zpow_add₀ (by norm_num), zpow_natCast]
    split <;> push_cast <;> ring

/-- A decimal is kept beside another one, or it lies below the digits of the other one that are kept
and becomes one unit there. -/
theorem absorb_cases (c : Context) (big small : Decimal) : c.absorb big small = small ∨
    big.coefficient ≠ 0 ∧ ∃ edge : ℤ, small.adjusted < edge ∧ edge < big.exponent ∧
      edge + c.precision < big.adjusted ∧
      c.absorb big small = ⟨small.negative, if small.coefficient = 0 then 0 else 1, edge⟩ := by
  unfold absorb
  dsimp only
  split
  · rename_i lost
    refine .inr ⟨lost.1, _, lost.2, by omega, ?_, rfl⟩
    unfold Decimal.adjusted
    omega
  · exact .inl rfl

theorem le_absorb_exponent {big small : Decimal} {k : ℤ} (low : k ≤ small.exponent) :
    k ≤ (c.absorb big small).exponent := by
  rcases absorb_cases c big small with kept | ⟨_, edge, below, _, _, lost⟩
  · rw [kept]
    exact low
  · rw [lost]
    have some := digitCount_pos small.coefficient
    unfold Decimal.adjusted Decimal.digits at below
    dsimp only
    omega

/-- A decimal so large that what is added lies below the digits that are kept: the last digit of a
representable sum stands above all of it. -/
theorem edge_lt_of_representable {big small : Decimal} {edge n k : ℤ} {digits : ℕ}
    (nonzero : big.coefficient ≠ 0) (apart : edge + digits < big.adjusted)
    (most : |small.toRat| < (10 : ℚ) ^ edge) (few : |n| < 10 ^ digits)
    (value : big.toRat + small.toRat = n * (10 : ℚ) ^ k) : edge < k := by
  have base : (10 : ℚ) ≠ 0 := by norm_num
  have one : (1 : ℚ) ≤ 10 := by norm_num
  have least : (10 : ℚ) ^ big.adjusted ≤ |big.toRat| := by
    rw [Decimal.abs_toRat]
    exact Decimal.pow_adjusted_le nonzero
  by_contra low
  have size : |big.toRat + small.toRat| < 10 ^ (k + digits) := by
    have unit : (0 : ℚ) < 10 ^ k := by positivity
    have cast : |(n : ℚ)| < 10 ^ digits := by exact_mod_cast few
    rw [value, abs_mul, abs_of_pos unit, add_comm, zpow_add₀ base, zpow_natCast]
    gcongr
  have first : (10 : ℚ) ^ (k + digits) ≤ 10 ^ (big.adjusted - 1) :=
    zpow_le_zpow_right₀ one (by omega)
  have second : (10 : ℚ) ^ edge ≤ 10 ^ (big.adjusted - 1) := zpow_le_zpow_right₀ one (by omega)
  have split : (10 : ℚ) ^ big.adjusted = 10 ^ (big.adjusted - 1) * 10 := by
    rw [← zpow_add_one₀ base]
    congr 1
    omega
  have unit : (0 : ℚ) < 10 ^ (big.adjusted - 1) := by positivity
  have triangle := abs_sub_abs_le_abs_sub big.toRat (-small.toRat)
  rw [abs_neg, sub_neg_eq_add] at triangle
  linarith

theorem units_eq_zero {units k : ℤ} (less : |units * (10 : ℚ) ^ k| < 10 ^ k) : units = 0 := by
  have unit : (0 : ℚ) < 10 ^ k := by positivity
  rw [abs_mul, abs_of_pos unit] at less
  have below : |(units : ℚ)| < 1 := by
    by_contra more
    have scaled := mul_le_mul_of_nonneg_right (not_lt.mp more) unit.le
    linarith
  rw [← Int.abs_lt_one_iff]
  exact_mod_cast below

/-- What is lost beside a larger decimal makes no representable sum with it. -/
theorem absorb_exact {big small : Decimal}
    (short : Representable c.precision (big.toRat + small.toRat)) :
    (c.absorb big small).toRat = small.toRat := by
  rcases absorb_cases c big small with kept | ⟨nonzero, edge, below, fine, apart, lost⟩
  · rw [kept]
  by_cases zero : small.coefficient = 0
  · rw [lost]
    simp [Decimal.toRat, Decimal.signed, zero]
  exfalso
  obtain ⟨n, k, few, value⟩ := short
  have base : (10 : ℚ) ≠ 0 := by norm_num
  have most : |small.toRat| < 10 ^ edge := by
    rw [Decimal.abs_toRat]
    have mono : (10 : ℚ) ^ (small.adjusted + 1) ≤ 10 ^ edge :=
      zpow_le_zpow_right₀ (by norm_num) (by omega)
    exact lt_of_lt_of_le small.magnitude_lt_pow mono
  have high := edge_lt_of_representable nonzero apart most few value
  obtain ⟨i, above⟩ : ∃ i : ℕ, k = edge + i := ⟨(k - edge).toNat, by omega⟩
  obtain ⟨j, beside⟩ : ∃ j : ℕ, big.exponent = edge + j := ⟨(big.exponent - edge).toNat, by omega⟩
  have multiple : small.toRat = (n * 10 ^ i - big.signed * 10 ^ j : ℤ) * (10 : ℚ) ^ edge := by
    have whole : small.toRat = n * 10 ^ k - big.signed * 10 ^ big.exponent := by
      rw [← value, Decimal.toRat.eq_def big]
      ring
    rw [whole, above, beside, zpow_add₀ base, zpow_add₀ base, zpow_natCast, zpow_natCast]
    push_cast
    ring
  rw [multiple] at most
  rw [units_eq_zero most, Int.cast_zero, zero_mul, ← abs_eq_zero, Decimal.abs_toRat,
    Decimal.magnitude_eq_zero] at multiple
  exact zero multiple

theorem add?_eq (c : Context) (a b : Decimal) : ∃ a' b', c.add? a b = c.fix? (exactSum a' b') ∧
    (a' = c.absorb b a ∧ b' = b ∨ a' = a ∧ b' = c.absorb a b) := by
  unfold add?
  split
  · exact ⟨_, _, rfl, .inl ⟨rfl, rfl⟩⟩
  · exact ⟨_, _, rfl, .inr ⟨rfl, rfl⟩⟩

theorem add?_representable (positive : 0 < c.precision) {a b : Decimal} (h : c.add? a b = some r)
    (lowA : c.tiny ≤ a.exponent) (lowB : c.tiny ≤ b.exponent)
    (short : Representable c.precision (a.toRat + b.toRat)) : r.toRat = a.toRat + b.toRat := by
  obtain ⟨a', b', sum, parts⟩ := add?_eq c a b
  have same : a'.toRat + b'.toRat = a.toRat + b.toRat ∧ c.tiny ≤ (exactSum a' b').exponent := by
    rcases parts with ⟨rfl, rfl⟩ | ⟨rfl, rfl⟩
    · rw [add_comm] at short
      rw [absorb_exact short]
      exact ⟨rfl, le_min (le_absorb_exponent lowA) lowB⟩
    · rw [absorb_exact short]
      exact ⟨rfl, le_min lowA (le_absorb_exponent lowB)⟩
  rw [sum] at h
  rw [← same.1, ← exactSum_toRat] at short ⊢
  exact fix?_exact positive h same.2 short

theorem le_add?_exponent (positive : 0 < c.precision) {a b : Decimal} (h : c.add? a b = some r)
    {k : ℤ} (lowA : k ≤ a.exponent) (lowB : k ≤ b.exponent) (high : k ≤ c.maxExponent) :
    k ≤ r.exponent := by
  obtain ⟨a', b', sum, parts⟩ := add?_eq c a b
  rw [sum] at h
  refine le_fix?_exponent positive h ?_ high
  rcases parts with ⟨rfl, rfl⟩ | ⟨rfl, rfl⟩
  · exact le_min (le_absorb_exponent lowA) lowB
  · exact le_min lowA (le_absorb_exponent lowB)

theorem foldlM_add?_exact (positive : 0 < c.precision) (range : c.tiny ≤ c.maxExponent)
    {start : Decimal} {terms : List Decimal} (h : terms.foldlM c.add? start = some r)
    (lowStart : c.tiny ≤ start.exponent) (low : ∀ d ∈ terms, c.tiny ≤ d.exponent)
    (short : ∀ first, first <+: terms → first ≠ [] →
      Representable c.precision (start.toRat + (first.map Decimal.toRat).sum)) :
    r.toRat = start.toRat + (terms.map Decimal.toRat).sum := by
  induction terms generalizing start with
  | nil =>
    obtain rfl := Option.some.inj h
    simp
  | cons d terms ih =>
    rw [List.foldlM_cons] at h
    obtain ⟨sum, added, h⟩ := Option.bind_eq_some_iff.mp h
    rw [List.forall_mem_cons] at low
    have one := short [d] (by simp) (by simp)
    simp only [List.map_cons, List.map_nil, List.sum_cons, List.sum_nil, add_zero] at one
    have exact := add?_representable positive added lowStart low.1 one
    have later := ih h (le_add?_exponent positive added lowStart low.1 range) low.2 (by
      intro first part nonempty
      have longer := short (d :: first) (List.cons_prefix_cons.mpr ⟨rfl, part⟩) (by simp)
      rw [exact]
      simpa [add_assoc] using longer)
    rw [later, exact]
    simp [add_assoc]

theorem adjusted_bounded {m p : ℕ} (nonzero : d.coefficient ≠ 0)
    (small : d.magnitude ≤ 10 ^ (m + p + 1) + 10 ^ m) : d.adjusted < m + p + 2 := by
  have mono : (10 : ℚ) ^ m ≤ 10 ^ (m + p + 1) := pow_le_pow_right₀ (by norm_num) (by omega)
  have next : (10 : ℚ) ^ ((m : ℤ) + p + 2) = 10 ^ (m + p + 1) * 10 := by
    rw [← pow_succ, ← zpow_natCast]
    congr 1
  have unit : (0 : ℚ) < 10 ^ (m + p + 1) := by positivity
  apply Decimal.adjusted_lt_of_magnitude_lt nonzero
  rw [next]
  linarith

theorem rounded_bounded {m n : ℕ} (least : d.exponent + d.digits - c.precision ≤ d.exponent + n)
    (most : d.exponent + n ≤ (m + c.precision + 1 : ℕ))
    (small : d.magnitude ≤ 10 ^ (m + c.precision + 1) + 10 ^ m) :
    c.rounding.dropDigits d.coefficient n * (10 : ℚ) ^ (d.exponent + n) ≤
      10 ^ (m + c.precision + 1) := by
  have base : (10 : ℚ) ≠ 0 := by norm_num
  have one : (1 : ℚ) ≤ 10 := by norm_num
  obtain ⟨j, room⟩ : ∃ j : ℕ, d.exponent + n + j = (m + c.precision + 1 : ℕ) :=
    ⟨((m + c.precision + 1 : ℕ) - (d.exponent + n)).toNat, by omega⟩
  have unit : (0 : ℚ) < 10 ^ d.exponent := by positivity
  have top : (10 : ℚ) ^ (m + c.precision + 1) = 10 ^ j * 10 ^ n * 10 ^ d.exponent := by
    rw [← zpow_natCast, ← room, zpow_add₀ base, zpow_add₀ base, zpow_natCast, zpow_natCast]
    ring
  have clear : 2 * d.magnitude < 2 * 10 ^ (m + c.precision + 1) + 10 ^ n * 10 ^ d.exponent := by
    have step : (10 : ℚ) ^ n * 10 ^ d.exponent = 10 ^ (d.exponent + n) := by
      rw [zpow_add₀ base, zpow_natCast, mul_comm]
    rw [step]
    rcases Int.lt_or_le m (d.exponent + n) with coarse | fine
    · have mono : (10 : ℚ) ^ ((m : ℤ) + 1) ≤ 10 ^ (d.exponent + n) :=
        zpow_le_zpow_right₀ one (by omega)
      rw [zpow_add_one₀ base, zpow_natCast] at mono
      have unit : (0 : ℚ) < 10 ^ m := by positivity
      linarith
    · have mono : (10 : ℚ) ^ (d.adjusted + 1) ≤ 10 ^ ((m + c.precision + 1 : ℕ) : ℤ) := by
        apply zpow_le_zpow_right₀ one
        unfold Decimal.adjusted
        omega
      rw [zpow_natCast] at mono
      have less := d.magnitude_lt_pow
      have unit : (0 : ℚ) < 10 ^ (d.exponent + n) := by positivity
      linarith
  have kept : c.rounding.dropDigits d.coefficient n ≤ 10 ^ j := by
    apply Rounding.dropDigits_bound
    rw [top, Decimal.magnitude] at clear
    have scaled : (2 * d.coefficient : ℚ) * 10 ^ d.exponent <
        (2 * 10 ^ j + 1) * 10 ^ n * 10 ^ d.exponent := by linarith
    exact_mod_cast lt_of_mul_lt_mul_right scaled unit.le
  have cast : (c.rounding.dropDigits d.coefficient n : ℚ) ≤ 10 ^ j := by exact_mod_cast kept
  rw [top, zpow_add₀ base, zpow_natCast]
  calc _ ≤ (10 : ℚ) ^ j * (10 ^ d.exponent * 10 ^ n) := by gcongr
    _ = 10 ^ j * 10 ^ n * 10 ^ d.exponent := by ring

theorem carry_bounded (positive : 0 < c.precision) {m : ℕ}
    (range : (m + c.precision + 1 : ℕ) ≤ c.maxExponent) (place : d.exponent ≤ c.maxExponent)
    (fits : d.coefficient ≤ 10 ^ c.precision) (small : d.magnitude ≤ 10 ^ (m + c.precision + 1)) :
    (c.carry d).adjusted ≤ c.maxExponent ∧ (c.carry d).magnitude ≤ 10 ^ (m + c.precision + 1) := by
  have same : (c.carry d).magnitude = d.magnitude := by
    rw [← Decimal.abs_toRat, (carry_same positive fits).1, Decimal.abs_toRat]
  refine ⟨?_, same.le.trans small⟩
  by_cases none : d.coefficient = 0
  · have one := Decimal.digits_of_zero none
    rw [carry, if_neg (by omega), Decimal.adjusted]
    omega
  · have carried : (c.carry d).coefficient ≠ 0 := by
      rw [ne_eq, ← Decimal.magnitude_eq_zero, same, Decimal.magnitude_eq_zero]
      exact none
    have unit : (0 : ℚ) < 10 ^ m := by positivity
    have within := adjusted_bounded carried ((same.le.trans small).trans
      (le_add_of_nonneg_right unit.le))
    omega

theorem fix?_bounded (positive : 0 < c.precision) {m : ℕ} (tiny : c.tiny ≤ m)
    (range : (m + c.precision + 1 : ℕ) ≤ c.maxExponent)
    (small : d.magnitude ≤ 10 ^ (m + c.precision + 1) + 10 ^ m) :
    ∃ r, c.fix? d = some r ∧ r.magnitude ≤ 10 ^ (m + c.precision + 1) := by
  unfold fix?
  by_cases zero : d.coefficient = 0
  · rw [if_pos zero]
    refine ⟨_, rfl, ?_⟩
    have none : Decimal.magnitude { d with exponent := min (max d.exponent c.tiny) c.maxExponent } =
        0 := Decimal.magnitude_eq_zero.mpr zero
    rw [none]
    positivity
  have bound := adjusted_bounded zero small
  have first : d.adjusted = d.exponent + d.digits - 1 := rfl
  rw [if_neg zero, if_neg (by omega)]
  dsimp only
  split
  · rename_i long
    obtain ⟨n, least⟩ : ∃ n : ℕ, d.exponent + n =
        max (d.exponent + d.digits - c.precision) c.tiny :=
      ⟨(max (d.exponent + d.digits - c.precision) c.tiny - d.exponent).toNat, by omega⟩
    have dropped : (d.exponent + n - d.exponent).toNat = n := by omega
    rw [← least, dropped]
    obtain ⟨inRange, rounded⟩ := carry_bounded positive range
      (d := ⟨d.negative, c.rounding.dropDigits d.coefficient n, d.exponent + n⟩)
      (by dsimp only; omega) (dropDigits_le_precision least)
      (rounded_bounded (by omega) (by omega) small)
    rw [if_neg (Int.not_lt.mpr inRange)]
    exact ⟨_, rfl, rounded⟩
  · rename_i short
    have some : 0 < d.digits := digitCount_pos d.coefficient
    have whole := rounded_bounded (c := c) (n := 0) (by omega) (by omega) small
    have kept := c.rounding.dropDigits_multiple d.coefficient 0
    rw [pow_zero, Nat.mul_one] at kept
    rw [kept, Nat.cast_zero, add_zero] at whole
    exact ⟨d, rfl, whole⟩

theorem absorb_bounded {big small : Decimal} {m j : ℕ} (wide : m ≤ j)
    (bound : big.magnitude ≤ 10 ^ (m + c.precision + 1)) (least : small.magnitude ≤ 10 ^ j) :
    (c.absorb big small).magnitude ≤ 10 ^ j := by
  rcases absorb_cases c big small with kept | ⟨nonzero, edge, below, fine, apart, lost⟩
  · rw [kept]
    exact least
  · have unit : (0 : ℚ) < 10 ^ m := by positivity
    have first := adjusted_bounded nonzero (bound.trans (le_add_of_nonneg_right unit.le))
    have edged : (10 : ℚ) ^ edge ≤ 10 ^ j := by
      rw [← zpow_natCast]
      exact zpow_le_zpow_right₀ (by norm_num) (by omega)
    rw [lost, Decimal.magnitude]
    split
    · rw [Nat.cast_zero, zero_mul]
      positivity
    · rw [Nat.cast_one, one_mul]
      exact edged

theorem add?_bounded (positive : 0 < c.precision) {m : ℕ} (tiny : c.tiny ≤ m)
    (range : (m + c.precision + 1 : ℕ) ≤ c.maxExponent) {a b : Decimal}
    (boundA : a.magnitude ≤ 10 ^ (m + c.precision + 1)) (boundB : b.magnitude ≤ 10 ^ m) :
    ∃ r, c.add? a b = some r ∧ r.magnitude ≤ 10 ^ (m + c.precision + 1) := by
  have wide : (10 : ℚ) ^ m ≤ 10 ^ (m + c.precision + 1) :=
    pow_le_pow_right₀ (by norm_num) (by omega)
  obtain ⟨a', b', sum, parts⟩ := add?_eq c a b
  have bounds : a'.magnitude ≤ 10 ^ (m + c.precision + 1) ∧ b'.magnitude ≤ 10 ^ m := by
    rcases parts with ⟨rfl, rfl⟩ | ⟨rfl, rfl⟩
    · exact ⟨absorb_bounded (by omega) (boundB.trans wide) boundA, boundB⟩
    · exact ⟨boundA, absorb_bounded (le_refl m) boundA boundB⟩
  rw [sum]
  apply fix?_bounded positive tiny range
  rw [← Decimal.abs_toRat, exactSum_toRat]
  have triangle := abs_add_le a'.toRat b'.toRat
  rw [Decimal.abs_toRat, Decimal.abs_toRat] at triangle
  linarith [bounds.1, bounds.2]

/-- A sum never overflows as long as no single term is near the largest exponent, however many terms
there are. -/
theorem foldlM_add?_bounded (positive : 0 < c.precision) {m : ℕ} (tiny : c.tiny ≤ m)
    (range : (m + c.precision + 1 : ℕ) ≤ c.maxExponent) {start : Decimal} {terms : List Decimal}
    (bound : start.magnitude ≤ 10 ^ (m + c.precision + 1))
    (small : ∀ d ∈ terms, d.magnitude ≤ 10 ^ m) : ∃ r, terms.foldlM c.add? start = some r := by
  induction terms generalizing start with
  | nil => exact ⟨start, rfl⟩
  | cons d terms ih =>
    rw [List.forall_mem_cons] at small
    obtain ⟨sum, added, within⟩ := add?_bounded positive tiny range bound small.1
    obtain ⟨r, summed⟩ := ih within small.2
    refine ⟨r, ?_⟩
    rw [List.foldlM_cons, added]
    exact summed

theorem fix?_overflow (large : (10 : ℚ) ^ (c.maxExponent + 1) ≤ d.magnitude) :
    c.fix? d = none := by
  have nonzero : d.coefficient ≠ 0 := by
    intro zero
    rw [Decimal.magnitude_eq_zero.mpr zero] at large
    exact absurd large (not_le.mpr (zpow_pos (by norm_num) _))
  have above := large.trans_lt d.magnitude_lt_pow
  rw [zpow_lt_zpow_iff_right₀ (by norm_num)] at above
  rw [fix?, if_neg nonzero, if_pos (by omega)]

theorem add?_overflow {zero : Decimal} (nothing : zero.coefficient = 0)
    (fine : d.exponent ≤ zero.exponent)
    (large : (10 : ℚ) ^ (c.maxExponent + 1) ≤ d.magnitude) : c.add? zero d = none := by
  have kept : c.absorb zero d = d := if_neg fun lost => lost.1 nothing
  have start : zero.toRat = 0 := (Decimal.isZero_iff zero).mp (beq_iff_eq.mpr nothing)
  have same : (exactSum zero d).magnitude = d.magnitude := by
    rw [← Decimal.abs_toRat, exactSum_toRat, start, zero_add, Decimal.abs_toRat]
  rw [add?, if_neg (Int.not_lt.mpr fine), kept]
  exact fix?_overflow (large.trans_eq same.symm)

theorem quantize?_short (positive : 0 < c.precision) {e : ℤ} (h : c.quantize? d e = some r) :
    r.digits ≤ c.precision ∧ r.exponent = e := by
  unfold quantize? at h
  split at h
  · rename_i zero
    obtain rfl := Option.some.inj h
    refine ⟨?_, rfl⟩
    change d.digits ≤ c.precision
    rw [Decimal.digits_of_zero zero]
    exact positive
  · split at h
    · cases h
    · obtain ⟨fits, same⟩ := Option.ite_none_left_eq_some.mp h
      obtain rfl := Option.some.inj same
      exact ⟨Nat.not_lt.mp fits, rfl⟩

end Context

theorem Decimal.onCents?_placed {d r : Decimal} (short : d.digits ≤ 28)
    (h : d.onCents? centContext = some r) : r.Placed ∧ r.digits ≤ 28 := by
  obtain ⟨placed, quantized, rfl⟩ := Option.map_eq_some_iff.mp h
  have parts : placed.Placed ∧ placed.digits ≤ 28 := by
    split at quantized
    · obtain ⟨few, places⟩ := Context.quantize?_short (by decide) quantized
      exact ⟨⟨by omega, by omega⟩, few⟩
    · split at quantized
      · obtain ⟨few, whole⟩ := Context.quantize?_short (by decide) quantized
        exact ⟨⟨by omega, by omega⟩, few⟩
      · obtain rfl := Option.some.inj quantized
        exact ⟨⟨by omega, by omega⟩, short⟩
  split <;> exact parts

theorem Operator.compute?_digits {c : Context} (positive : 0 < c.precision) {op : Operator}
    {a b d : Decimal} (h : op.compute? c a b = some d) : d.digits ≤ c.precision := by
  have added {a b : Decimal} (h : c.add? a b = some d) : d.digits ≤ c.precision := by
    obtain ⟨a', b', sum, _⟩ := Context.add?_eq c a b
    rw [sum] at h
    exact Context.fix?_digits positive h
  cases op with
  | add => exact added h
  | sub => exact added h
  | mul => exact Context.fix?_digits positive h
  | div =>
    change c.div? a b = some d at h
    unfold Context.div? at h
    split at h
    · exact Context.fix?_digits positive h
    · dsimp only at h
      split at h
      · exact Context.fix?_digits positive h
      · exact Context.fix?_digits positive h

theorem Operator.apply_placed {op : Operator} {a b d : Decimal} (h : op.apply a b = .ok d) :
    d.Placed ∧ d.digits ≤ 28 := by
  unfold apply at h
  split at h
  · cases h
  · split at h
    · rename_i found
      cases h
      obtain ⟨exact, computed, placed⟩ := Option.bind_eq_some_iff.mp found
      exact Decimal.onCents?_placed (compute?_digits (by decide) computed) placed
    · cases h

end DiceNotation
