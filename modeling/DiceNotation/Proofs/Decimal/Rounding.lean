import DiceNotation.Decimal.Context
import DiceNotation.Proofs.Decimal.Value
import Mathlib.Algebra.Order.Floor.Ring
import Mathlib.Data.Rat.Floor

/-!
Rounding of numbers to the nearest multiple of a unit, a half going away from zero. A context that
rounds coefficients in this way rounds magnitudes so, and a quotient that is rounded to the
precision first and to cents after that is rounded to cents as if it had been rounded once.
-/
namespace DiceNotation

open Text

def halfUp (unit x : ℚ) : ℚ := ⌊x / unit + 1 / 2⌋ * unit

def roundTo (unit q : ℚ) : ℚ := if q < 0 then -halfUp unit (-q) else halfUp unit q

def roundCents (q : ℚ) : ℚ := if q < 0 then -halfUp (1 / 100) (-q) else halfUp (1 / 100) q

section HalfUp

variable {u v x : ℚ}

theorem halfUp_eq_iff (pos : 0 < u) (n : ℤ) :
    halfUp u x = n * u ↔ n * u - u / 2 ≤ x ∧ x < n * u + u / 2 := by
  have cancel : halfUp u x = n * u ↔ ⌊x / u + 1 / 2⌋ = n := by
    rw [halfUp, mul_left_inj' pos.ne', Int.cast_inj]
  have scaled : x / u * u = x := div_mul_cancel₀ x pos.ne'
  rw [cancel, Int.floor_eq_iff, ← mul_le_mul_iff_left₀ pos, ← mul_lt_mul_iff_left₀ pos, add_mul,
    scaled]
  constructor
  · intro h
    constructor <;> linarith [h.1, h.2]
  · intro h
    constructor <;> linarith [h.1, h.2]

theorem halfUp_exists (u x : ℚ) : ∃ n : ℤ, halfUp u x = n * u := ⟨_, rfl⟩

theorem halfUp_bounds (pos : 0 < u) : x - u / 2 < halfUp u x ∧ halfUp u x ≤ x + u / 2 := by
  obtain ⟨n, eq⟩ := halfUp_exists u x
  have bounds := (halfUp_eq_iff pos n).mp eq
  rw [eq]
  constructor <;> linarith [bounds.1, bounds.2]

theorem halfUp_multiple (pos : 0 < u) (n : ℤ) : halfUp u (n * u) = n * u := by
  rw [halfUp_eq_iff pos]
  constructor <;> linarith

@[simp] theorem halfUp_zero (u : ℚ) : halfUp u 0 = 0 := by
  have floor : ⌊(1 : ℚ) / 2⌋ = 0 := by
    rw [Int.floor_eq_iff]
    norm_num
  rw [halfUp, zero_div, zero_add, floor, Int.cast_zero, zero_mul]

theorem multiple_le_halfUp (pos : 0 < u) {n : ℤ} (h : n * u ≤ x) : n * u ≤ halfUp u x := by
  unfold halfUp
  gcongr
  rw [Int.le_floor]
  have whole : (n : ℚ) ≤ x / u := (le_div_iff₀ pos).mpr h
  linarith

theorem halfUp_lt_multiple (pos : 0 < u) {n : ℤ} (h : x < n * u - u / 2) : halfUp u x < n * u := by
  unfold halfUp
  gcongr
  rw [Int.floor_lt]
  have apart : x / u < n - 1 / 2 := by
    rw [div_lt_iff₀ pos]
    linarith
  linarith

/-- Rounding to a fine unit first changes nothing exactly if the number is not so near below a half
of the coarse unit that it is rounded up to it. -/
theorem halfUp_halfUp_iff {k : ℤ} (pos : 0 < u) (coarse : v = 2 * k * u) (posV : 0 < v) :
    halfUp v (halfUp u x) = halfUp v x ↔
      ∀ n : ℤ, x < n * v + v / 2 → x < n * v + v / 2 - u / 2 := by
  have half (n : ℤ) : ((2 * k * n + k : ℤ) : ℚ) * u = n * v + v / 2 := by
    rw [coarse]
    push_cast
    ring
  have fine : u ≤ v := by
    have whole : 1 ≤ k := by
      by_contra none
      have nonpos : (k : ℚ) ≤ 0 := by exact_mod_cast (by omega : k ≤ 0)
      nlinarith
    have cast : (1 : ℚ) ≤ k := by exact_mod_cast whole
    nlinarith
  constructor
  -- From there on the number would be rounded to the half, and that to the multiple above it.
  · intro same n below
    by_contra near
    have up : halfUp u x = n * v + v / 2 := by
      rw [← half, halfUp_eq_iff pos, half]
      constructor <;> linarith
    have top : halfUp v (n * v + v / 2) = (n + 1 : ℤ) * v := by
      rw [halfUp_eq_iff posV]
      push_cast
      constructor <;> linarith
    have low : halfUp v x = n * v := by
      rw [halfUp_eq_iff posV]
      constructor <;> linarith
    rw [up, top, low] at same
    push_cast at same
    linarith
  · intro clear
    obtain ⟨n, eq⟩ := halfUp_exists v x
    obtain ⟨low, high⟩ := (halfUp_eq_iff posV n).mp eq
    rw [eq, halfUp_eq_iff posV]
    constructor
    -- The lower half of the coarse unit is a multiple of the fine one, and is not crossed.
    · have multiple : ((2 * k * n - k : ℤ) : ℚ) * u = n * v - v / 2 := by
        rw [coarse]
        push_cast
        ring
      rw [← multiple] at low ⊢
      exact multiple_le_halfUp pos low
    -- The upper half could be reached from below, but for the distance.
    · have apart := clear n high
      rw [← half] at apart ⊢
      exact halfUp_lt_multiple pos apart

theorem halfUp_nonneg (pos : 0 < u) (nonneg : 0 ≤ x) : 0 ≤ halfUp u x := by
  have zero := multiple_le_halfUp pos (n := 0) (by simpa using nonneg)
  simpa using zero

theorem roundTo_signed (nonneg : 0 ≤ x) (negative : Bool) :
    roundTo u (if negative then -x else x) = if negative then -halfUp u x else halfUp u x := by
  unfold roundTo
  cases negative with
  | false => simp [nonneg]
  | true =>
    by_cases zero : x = 0
    · simp [zero]
    · have pos : 0 < x := lt_of_le_of_ne nonneg (Ne.symm zero)
      simp [pos]

theorem roundCents_signed (nonneg : 0 ≤ x) (negative : Bool) :
    roundCents (if negative then -x else x) =
      if negative then -halfUp (1 / 100) x else halfUp (1 / 100) x :=
  roundTo_signed nonneg negative

theorem roundCents_of_cents (n : ℤ) : roundCents (n * (1 / 100)) = n * (1 / 100) := by
  unfold roundCents
  split
  · rw [← neg_mul, ← Int.cast_neg, halfUp_multiple (by norm_num)]
    push_cast
    ring
  · exact halfUp_multiple (by norm_num) n

theorem abs_roundTo (pos : 0 < u) (x : ℚ) : |roundTo u x| = halfUp u |x| := by
  unfold roundTo
  split
  · rename_i negative
    rw [abs_neg, abs_of_neg negative, abs_of_nonneg (halfUp_nonneg pos (by linarith))]
  · rename_i nonneg
    have nonneg := not_lt.mp nonneg
    rw [abs_of_nonneg nonneg, abs_of_nonneg (halfUp_nonneg pos nonneg)]

theorem abs_roundTo_le (pos : 0 < u) (x : ℚ) : |roundTo u x| ≤ |x| + u / 2 := by
  rw [abs_roundTo pos]
  exact (halfUp_bounds pos).2

end HalfUp

theorem quotient_clear {a b : ℕ} {u : ℚ} (pos : 0 < b) (small : a < 10 ^ 25)
    (fine : 10 ^ 27 * u ≤ (a : ℚ) / b) (n : ℤ)
    (below : (a : ℚ) / b < n * (1 / 100) + 1 / 100 / 2) :
    (a : ℚ) / b < n * (1 / 100) + 1 / 100 / 2 - u / 2 := by
  have posB : (0 : ℚ) < b := by exact_mod_cast pos
  -- Over the common denominator both sides are whole numbers, so they are one apart at least.
  have apart : (200 * a + 1 : ℤ) ≤ (2 * n + 1) * b := by
    have cleared : (200 * a : ℚ) < (2 * n + 1) * b := by
      rw [div_lt_iff₀ posB] at below
      linarith
    have whole : (200 * a : ℤ) < (2 * n + 1) * b := by exact_mod_cast cleared
    omega
  have gap : (a : ℚ) / b + 1 / (200 * b) ≤ n * (1 / 100) + 1 / 100 / 2 := by
    have cast : (200 * a + 1 : ℚ) ≤ (2 * n + 1) * b := by exact_mod_cast apart
    have sum : (a : ℚ) / b + 1 / (200 * b) = (200 * a + 1) / (200 * b) := by
      field_simp
    rw [sum, div_le_iff₀ (by positivity)]
    linarith
  -- The unit is that of the 28th digit, hence below this gap.
  have half : u / 2 < 1 / (200 * b) := by
    have bound : (a : ℚ) < 10 ^ 25 := by exact_mod_cast small
    rw [le_div_iff₀ posB] at fine
    rw [lt_div_iff₀ (by positivity)]
    linarith
  linarith

theorem quotient_halfUp (n : ℕ) {d : ℕ} (pos : 0 < d) :
    (Rounding.halfUp.quotient n d : ℤ) = ⌊(n : ℚ) / d + 1 / 2⌋ := by
  have posD : (0 : ℚ) < d := by exact_mod_cast pos
  have less := Nat.mod_lt n pos
  have whole := Nat.div_add_mod n d
  symm
  rw [Int.floor_eq_iff, ← mul_le_mul_iff_left₀ posD, ← mul_lt_mul_iff_left₀ posD, add_mul,
    div_mul_cancel₀ _ posD.ne']
  unfold Rounding.quotient
  generalize n / d = q at *
  generalize n % d = r at *
  have parts : (d : ℚ) * q + r = n := by exact_mod_cast whole
  have short : (r : ℚ) < d := by exact_mod_cast less
  have rest : (0 : ℚ) ≤ r := by positivity
  by_cases up : d ≤ 2 * r
  · have half : (d : ℚ) ≤ 2 * r := by exact_mod_cast up
    have rounded : (if d < 2 * r then q + 1 else if 2 * r = d then q + 1 else q) = q + 1 := by
      split
      · rfl
      · rw [if_pos (by omega)]
    rw [rounded]
    push_cast
    constructor <;> linarith
  · have half : 2 * (r : ℚ) < d := by exact_mod_cast Nat.lt_of_not_le up
    rw [if_neg (by omega), if_neg (by omega)]
    push_cast
    constructor <;> linarith

theorem dropDigits_halfUp (c n : ℕ) :
    (Rounding.halfUp.dropDigits c n : ℤ) = ⌊(c : ℚ) / 10 ^ n + 1 / 2⌋ := by
  unfold Rounding.dropDigits
  split
  · rename_i few
    have small : c < 10 ^ (n - 1) :=
      (digitCount_le_iff (by have := digitCount_pos c; omega)).mp (by omega)
    have tenth : 10 ^ n = 10 * 10 ^ (n - 1) := by
      rw [← pow_succ']
      congr 1
      have := digitCount_pos c
      omega
    have short : 10 * c < 10 ^ n := by
      rw [tenth]
      omega
    have less : (10 * c : ℚ) < 10 ^ n := by exact_mod_cast short
    symm
    rw [Nat.cast_zero, Int.floor_eq_iff]
    have fraction : (c : ℚ) / 10 ^ n < 1 / 10 := by
      rw [div_lt_iff₀ (by positivity)]
      linarith
    have nonneg : (0 : ℚ) ≤ (c : ℚ) / 10 ^ n := by positivity
    push_cast
    constructor <;> linarith
  · have rounded := quotient_halfUp c (d := 10 ^ n) (by positivity)
    push_cast at rounded
    exact rounded

theorem dropDigits_le {c n k : ℕ} (h : c < 10 ^ (k + n)) :
    Rounding.halfUp.dropDigits c n ≤ 10 ^ k := by
  have bound : (c : ℚ) / 10 ^ n < 10 ^ k := by
    rw [div_lt_iff₀ (by positivity), ← pow_add]
    exact_mod_cast h
  have below : ⌊(c : ℚ) / 10 ^ n + 1 / 2⌋ < 10 ^ k + 1 := by
    rw [Int.floor_lt]
    push_cast
    linarith
  rw [← dropDigits_halfUp] at below
  exact_mod_cast Int.lt_add_one_iff.mp below

theorem halfUp_scaled (y : ℚ) (n : ℕ) (e : ℤ) :
    halfUp (10 ^ (e + n)) (y * 10 ^ e) = ⌊y / 10 ^ n + 1 / 2⌋ * (10 : ℚ) ^ (e + n) := by
  have ratio : y * 10 ^ e / 10 ^ (e + n) = y / 10 ^ n := by
    rw [zpow_add₀ (by norm_num), zpow_natCast]
    field_simp
  rw [halfUp, ratio]

theorem dropDigits_magnitude (c n : ℕ) (e : ℤ) :
    (Rounding.halfUp.dropDigits c n : ℚ) * 10 ^ (e + n) = halfUp (10 ^ (e + n)) (c * 10 ^ e) := by
  have rounded : (Rounding.halfUp.dropDigits c n : ℚ) = ⌊(c : ℚ) / 10 ^ n + 1 / 2⌋ := by
    exact_mod_cast dropDigits_halfUp c n
  rw [halfUp_scaled, rounded]

theorem floor_cut {q h : ℕ} {y : ℚ} (pos : 0 < h) (low : q ≤ y) (high : y < q + 1) :
    ⌊y / (2 * h) + 1 / 2⌋ = ((q + h) / (2 * h) : ℕ) := by
  have twice : (0 : ℚ) < 2 * h := by positivity
  have whole := Nat.div_add_mod (q + h) (2 * h)
  have less := Nat.mod_lt (q + h) (show 0 < 2 * h by omega)
  rw [Int.floor_eq_iff, ← mul_le_mul_iff_left₀ twice, ← mul_lt_mul_iff_left₀ twice, add_mul,
    div_mul_cancel₀ _ twice.ne']
  generalize (q + h) / (2 * h) = m at *
  generalize (q + h) % (2 * h) = r at *
  have parts : 2 * (h : ℚ) * m + r = q + h := by exact_mod_cast whole
  have short : (r : ℚ) + 1 ≤ 2 * h := by exact_mod_cast less
  have rest : (0 : ℚ) ≤ r := by positivity
  push_cast
  constructor <;> linarith

/-- A digit that is neither 0 nor 5 stands for the digits that are cut off behind it. -/
theorem floor_sticky {q n : ℕ} {y : ℚ} (few : n = 1 ∨ n = 2) (low : q ≤ y) (high : y < q + 1) :
    ⌊((if q % 5 = 0 then q + 1 else q : ℕ) : ℚ) / 10 ^ n + 1 / 2⌋ = ⌊y / 10 ^ n + 1 / 2⌋ := by
  obtain ⟨h, five, twice⟩ : ∃ h : ℕ, (h = 5 ∨ h = 50) ∧ (10 : ℚ) ^ n = 2 * h := by
    rcases few with rfl | rfl
    · exact ⟨5, .inl rfl, by norm_num⟩
    · exact ⟨50, .inr rfl, by norm_num⟩
  have sticky (p : ℕ) : ⌊(p : ℚ) / (2 * h) + 1 / 2⌋ = ((p + h) / (2 * h) : ℕ) :=
    floor_cut (by omega) (le_refl _) (lt_add_one _)
  rw [twice, sticky, floor_cut (by omega) low high]
  split
  · rcases five with rfl | rfl <;> omega
  · rfl

end DiceNotation
