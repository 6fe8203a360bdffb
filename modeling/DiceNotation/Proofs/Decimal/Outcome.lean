import DiceNotation.Proofs.Decimal.Significant

/-!
The four operations on decimals of at most two places, however long they are: when there is a
result, which one it is, and when it is the exact result rounded once.
-/
namespace DiceNotation

open Text

/-- What is computed, if `s` are the first 28 digits of the exact result. What rounds to no cents,
or is too long to be put on cents, need not be `s`. -/
inductive Computes (s : ℚ) : Option Decimal → Prop
  | rounded {r : Decimal} (short : r.digits ≤ 28) (value : r.toRat = s) : Computes s (some r)
  | small {r : Decimal} (short : r.digits ≤ 28) (result : |r.toRat| < 1 / 1000)
      (exact : |s| < 1 / 1000) : Computes s (some r)
  | large {r : Decimal} (short : r.digits ≤ 28) (result : 10 ^ 28 ≤ |r.toRat|)
      (exact : 10 ^ 28 ≤ |s|) : Computes s (some r)
  | overflow (exact : 10 ^ 28 ≤ |s|) : Computes s none

theorem roundCents_small {q : ℚ} (small : |q| < 1 / 1000) : roundCents q = 0 := by
  have none : halfUp (1 / 100) |q| = (0 : ℤ) * (1 / 100) := by
    have nonneg := abs_nonneg q
    rw [halfUp_eq_iff (by norm_num)]
    constructor <;> push_cast <;> linarith
  have size : |roundCents q| = halfUp (1 / 100) |q| := abs_roundTo (by norm_num) q
  rw [none, Int.cast_zero, zero_mul] at size
  exact abs_eq_zero.mp size

namespace Computes

variable {s t : ℚ} {o : Option Decimal}

theorem of_large (h : Computes s o) (long : 10 ^ 28 ≤ |s|) (exact : 10 ^ 28 ≤ |t|) :
    Computes t o := by
  cases h with
  | rounded short value => exact large short (by rwa [value]) exact
  | small short result tiny => linarith
  | large short result _ => exact large short result exact
  | overflow _ => exact overflow exact

theorem onCents (h : Computes s o) (fits : |s| < 10 ^ 28) :
    ∃ r, o.bind (·.onCents? centContext) = some r ∧ r.Placed ∧ r.toRat = roundCents s := by
  cases h with
  | rounded short value =>
    rw [← value] at fits ⊢
    exact Decimal.onCents?_rounds short (by rwa [Decimal.abs_toRat] at fits)
  | small short result tiny =>
    rw [roundCents_small tiny, ← roundCents_small result]
    rw [Decimal.abs_toRat] at result
    exact Decimal.onCents?_rounds short (by linarith)
  | large short result exact => linarith
  | overflow exact => linarith

theorem onCents_eq_none (h : Computes s o) (long : 10 ^ 28 ≤ |s|) :
    o.bind (·.onCents? centContext) = none := by
  cases h with
  | rounded short value =>
    rw [← value, Decimal.abs_toRat] at long
    exact Decimal.onCents?_eq_none short long
  | small short result tiny => linarith
  | large short result _ =>
    rw [Decimal.abs_toRat] at result
    exact Decimal.onCents?_eq_none short result
  | overflow _ => rfl

end Computes

namespace Context

theorem dropped_toRat {d : Decimal} {n : ℕ} (least : d.exponent + n =
    max (d.exponent + d.digits - centContext.precision) centContext.tiny) :
    (centContext.carry ⟨d.negative, centContext.rounding.dropDigits d.coefficient n,
        d.exponent + n⟩).toRat = roundTo (10 ^ (d.exponent + n)) d.toRat := by
  rw [(carry_same (by decide) (dropDigits_le_precision least)).1, d.toRat_eq,
    roundTo_signed d.magnitude_nonneg, Decimal.magnitude.eq_def d, ← dropDigits_magnitude,
    Decimal.toRat_eq]
  rfl

theorem significant_of_overflow {d : Decimal} (overflow : centContext.fix? d = none) :
    10 ^ 28 ≤ |significant d.toRat| := by
  by_contra short
  rw [le_significant_iff, d.abs_toRat] at short
  have room : d.magnitude ≤ 10 ^ (0 + centContext.precision + 1) + 10 ^ 0 := by
    rw [precision_cent]
    norm_num at short ⊢
    linarith
  obtain ⟨r, found, _⟩ := fix?_bounded (by decide) (by decide) (by decide) room
  rw [overflow] at found
  cases found

theorem dropped_small {d : Decimal} {n : ℕ} (nonzero : d.coefficient ≠ 0)
    (least : d.exponent + n =
      max (d.exponent + d.digits - centContext.precision) centContext.tiny)
    (more : d.exponent + n ≠ d.adjusted - 27) :
    |roundTo (10 ^ (d.exponent + n)) d.toRat| < 1 / 1000 ∧ |significant d.toRat| < 1 / 1000 := by
  have precision := precision_cent
  have tiny := tiny_cent
  have place : d.exponent + n = -1000026 ∧ d.adjusted < -1000 := by
    unfold Decimal.adjusted at more ⊢
    omega
  have fine : |d.toRat| < 1 / 10000 := by
    have power : (10 : ℚ) ^ (d.adjusted + 1) ≤ 10 ^ (-4 : ℤ) :=
      zpow_le_zpow_right₀ (by norm_num) (by omega)
    have below := d.magnitude_lt_pow
    rw [d.abs_toRat]
    norm_num at power ⊢
    linarith
  have unit : (10 : ℚ) ^ (d.exponent + n) ≤ 1 / 10000 := by
    have power : (10 : ℚ) ^ (d.exponent + n) ≤ 10 ^ (-4 : ℤ) :=
      zpow_le_zpow_right₀ (by norm_num) (by omega)
    norm_num at power ⊢
    exact power
  have positive : d.toRat ≠ 0 := by
    rwa [← abs_ne_zero, d.abs_toRat, ne_eq, Decimal.magnitude_eq_zero]
  have first := (lastUnit_bounds positive).1
  have result := abs_roundTo_le (u := 10 ^ (d.exponent + n)) (by positivity) d.toRat
  have exact := abs_roundTo_le (lastUnit_pos d.toRat) d.toRat
  constructor
  · linarith
  · rw [significant]
    linarith

theorem fix?_computes (d : Decimal) : Computes (significant d.toRat) (centContext.fix? d) := by
  by_cases zero : d.coefficient = 0
  · have one := Decimal.digits_of_zero zero
    unfold fix?
    rw [if_pos zero]
    refine .rounded ?_ ?_
    · change d.digits ≤ 28
      omega
    · simp [Decimal.toRat, Decimal.signed, zero]
  cases fixed : centContext.fix? d with
  | none => exact .overflow (significant_of_overflow fixed)
  | some r =>
    have short : r.digits ≤ 28 := fix?_digits (by decide) fixed
    rcases fix?_eq_some fixed with ⟨none, _⟩ | ⟨few, rfl⟩ | ⟨n, _, least, rfl⟩
    · exact absurd none zero
    · exact .rounded short (Decimal.significant_of_digits few).symm
    have value := dropped_toRat least
    by_cases normal : d.exponent + n = d.adjusted - 27
    · refine .rounded short ?_
      rw [value, significant, Decimal.lastUnit_toRat zero, normal]
    · obtain ⟨result, exact⟩ := dropped_small zero least normal
      exact .small short (by rwa [value]) exact

theorem absorb_large {big small : Decimal} (places : -2 ≤ small.exponent) :
    (centContext.absorb big small).toRat = small.toRat ∨
      10 ^ 28 - 1 / 2 ≤ |big.toRat + small.toRat| ∧
        10 ^ 28 - 1 / 2 ≤ |big.toRat + (centContext.absorb big small).toRat| := by
  rcases absorb_cases centContext big small with kept | ⟨nonzero, edge, below, _, apart, lost⟩
  · rw [kept]
    exact .inl rfl
  have precision := precision_cent
  have some := digitCount_pos small.coefficient
  have large : 28 ≤ big.adjusted := by
    unfold Decimal.adjusted Decimal.digits at below
    omega
  have long (q : ℚ) (less : |q| ≤ 10 ^ edge) : 10 ^ 28 - 1 / 2 ≤ |big.toRat + q| := by
    have first := Decimal.pow_adjusted_le nonzero
    have power : (10 : ℚ) ^ edge ≤ 10 ^ (big.adjusted - 29) :=
      zpow_le_zpow_right₀ (by norm_num) (by omega)
    have least : (10 : ℚ) ^ (-1 : ℤ) ≤ 10 ^ (big.adjusted - 29) :=
      zpow_le_zpow_right₀ (by norm_num) (by omega)
    have split : (10 : ℚ) ^ big.adjusted = 10 ^ 29 * 10 ^ (big.adjusted - 29) := by
      rw [← zpow_natCast, ← zpow_add₀ (by norm_num)]
      congr 1
      omega
    have triangle := abs_sub_abs_le_abs_sub big.toRat (-q)
    rw [abs_neg, sub_neg_eq_add, big.abs_toRat] at triangle
    norm_num at least split ⊢
    linarith
  refine .inr ⟨long _ ?_, long _ ?_⟩
  · rw [small.abs_toRat]
    have power : (10 : ℚ) ^ (small.adjusted + 1) ≤ 10 ^ edge :=
      zpow_le_zpow_right₀ (by norm_num) (by omega)
    exact small.magnitude_lt_pow.le.trans power
  · rw [lost, Decimal.abs_toRat, Decimal.magnitude]
    dsimp only
    split <;> simp
    positivity

theorem add?_computes {a b : Decimal} (placesA : -2 ≤ a.exponent) (placesB : -2 ≤ b.exponent) :
    Computes (significant (a.toRat + b.toRat)) (centContext.add? a b) := by
  obtain ⟨a', b', sum, parts⟩ := add?_eq centContext a b
  have computed := fix?_computes (exactSum a' b')
  rw [exactSum_toRat] at computed
  have same : a'.toRat + b'.toRat = a.toRat + b.toRat ∨
      10 ^ 28 - 1 / 2 ≤ |a.toRat + b.toRat| ∧ 10 ^ 28 - 1 / 2 ≤ |a'.toRat + b'.toRat| := by
    rcases parts with ⟨rfl, rfl⟩ | ⟨rfl, rfl⟩
    · rw [add_comm, add_comm a.toRat]
      exact (absorb_large placesA).imp_left fun kept => by rw [kept]
    · exact (absorb_large placesB).imp_left fun kept => by rw [kept]
  rw [sum]
  rcases same with eq | ⟨exact, long⟩
  · rwa [eq] at computed
  · exact computed.of_large ((le_significant_iff _).mpr long) ((le_significant_iff _).mpr exact)

theorem mul?_computes (a b : Decimal) :
    Computes (significant (a.toRat * b.toRat)) (centContext.mul? a b) := by
  have computed := fix?_computes ⟨a.negative != b.negative, a.coefficient * b.coefficient,
    a.exponent + b.exponent⟩
  have value : Decimal.toRat ⟨a.negative != b.negative, a.coefficient * b.coefficient,
      a.exponent + b.exponent⟩ = a.toRat * b.toRat := by
    rw [Decimal.toRat, Decimal.toRat, Decimal.toRat, zpow_add₀ (by norm_num)]
    cases signA : a.negative <;> cases signB : b.negative <;>
      simp [Decimal.signed, signA, signB] <;> ring
  rwa [value] at computed

theorem significant_sticky {q : ℕ} {y : ℚ} {e : ℤ} (negative : Bool) (low : 10 ^ 28 ≤ q)
    (high : q < 10 ^ 30) (below : q ≤ y) (above : y < q + 1) :
    significant (Decimal.toRat ⟨negative, if q % 5 = 0 then q + 1 else q, e⟩) =
      significant (if negative then -(y * 10 ^ e) else y * 10 ^ e) := by
  obtain ⟨p, sticky⟩ : ∃ p : ℕ, p = if q % 5 = 0 then q + 1 else q := ⟨_, rfl⟩
  obtain ⟨n, few, least, most⟩ : ∃ n : ℕ, (n = 1 ∨ n = 2) ∧ 10 ^ (27 + n) ≤ q ∧
      q + 1 ≤ 10 ^ (28 + n) := by
    by_cases long : q < 10 ^ 29
    · exact ⟨1, .inl rfl, low, long⟩
    · exact ⟨2, .inr rfl, by omega, high⟩
  -- The digit that is put in does not make the number longer.
  have pBounds : 10 ^ (27 + n) ≤ p ∧ p < 10 ^ (28 + n) := by
    rw [sticky]
    rcases few with rfl | rfl <;> split <;> omega
  have nonneg : 0 ≤ y := le_trans (by positivity) below
  have unit {z : ℚ} (first : 10 ^ (27 + n) ≤ z) (last : z < 10 ^ (28 + n)) :
      lastUnit (z * 10 ^ e) = 10 ^ (e + n) := by
    have pos : (0 : ℚ) < 10 ^ e := by positivity
    have size : |z * 10 ^ e| = z * 10 ^ e :=
      abs_of_nonneg (mul_nonneg (le_trans (by positivity) first) pos.le)
    have power (k : ℕ) : (10 : ℚ) ^ (e + n + k) = 10 ^ (k + n) * 10 ^ e := by
      rw [pow_add, ← zpow_natCast, ← zpow_natCast, ← zpow_add₀ (by norm_num),
        ← zpow_add₀ (by norm_num)]
      congr 1
      omega
    have place : e + (n : ℤ) = e + n + 27 - 27 := by omega
    rw [place]
    apply lastUnit_eq
    · rw [size]
      exact (power 27).trans_le (by gcongr)
    · rw [size, add_assoc]
      exact lt_of_lt_of_eq (by gcongr) (power 28).symm
  rw [← sticky, Decimal.toRat_eq, significant_signed (Decimal.magnitude_nonneg _),
    significant_signed (by positivity)]
  have same : halfUp (lastUnit (p * 10 ^ e)) (p * 10 ^ e) =
      halfUp (lastUnit (y * 10 ^ e)) (y * 10 ^ e) := by
    rw [unit (by exact_mod_cast pBounds.1) (by exact_mod_cast pBounds.2),
      unit (le_trans (by exact_mod_cast least) below)
        (lt_of_lt_of_le above (by exact_mod_cast most)),
      halfUp_scaled, halfUp_scaled, sticky, floor_sticky few below above]
  change (if negative = true then -halfUp (lastUnit (p * 10 ^ e)) (p * 10 ^ e) else _) = _
  rw [Decimal.magnitude, same]

theorem div?_computes {a b : Decimal} (nonzero : b.coefficient ≠ 0) :
    Computes (significant (a.toRat / b.toRat)) (centContext.div? a b) := by
  rw [quotient_sign]
  unfold div?
  by_cases zero : a.coefficient = 0
  · rw [if_pos zero]
    have fixed := fix?_computes ⟨a.negative != b.negative, 0, a.exponent - b.exponent⟩
    rw [Decimal.toRat_eq] at fixed
    simpa [Decimal.magnitude, zero] using fixed
  rw [if_neg zero]
  obtain ⟨shift, shift_eq⟩ : ∃ shift : ℤ, (b.digits : ℤ) - a.digits + 29 = shift := ⟨_, rfl⟩
  obtain ⟨e, e_eq⟩ : ∃ e : ℤ, a.exponent - b.exponent - shift = e := ⟨_, rfl⟩
  have computed : (b.digits : ℤ) - a.digits + centContext.precision + 1 = shift := by
    rw [precision_cent]
    omega
  have value := scaled_quotient a b shift
  have range := scaled_range zero nonzero (e := e) (by omega)
  rw [e_eq] at value
  dsimp only
  rw [computed, e_eq]
  generalize num : a.coefficient * 10 ^ shift.toNat = n at value ⊢
  generalize den : b.coefficient * 10 ^ (-shift).toNat = d at value ⊢
  have pos : 0 < d := by
    rw [← den]
    have := Nat.pos_of_ne_zero nonzero
    positivity
  have unit : (0 : ℚ) < 10 ^ e := by positivity
  obtain ⟨below, above⟩ := div_floor_bounds n pos
  rw [← value] at range ⊢
  have low : 10 ^ 28 < n / d + 1 := by
    have cast := lt_trans (lt_of_mul_lt_mul_right range.1 unit.le) above
    exact_mod_cast cast
  have high : n / d < 10 ^ 30 := by
    have cast := lt_of_le_of_lt below (lt_of_mul_lt_mul_right range.2 unit.le)
    exact_mod_cast cast
  by_cases whole : n % d = 0
  · rw [if_pos whole]
    have stripped := stripZeros_magnitude shift.toNat (n / d) e
    generalize stripZeros shift.toNat (n / d) e = result at stripped ⊢
    obtain ⟨c, f⟩ := result
    have exact : ((n / d : ℕ) : ℚ) = (n : ℚ) / d := by
      rw [eq_div_iff (by exact_mod_cast pos.ne')]
      exact_mod_cast Nat.div_mul_cancel (Nat.dvd_of_mod_eq_zero whole)
    have fixed := fix?_computes ⟨a.negative != b.negative, c, f⟩
    rw [Decimal.toRat_eq, Decimal.magnitude, stripped, exact] at fixed
    exact fixed
  · rw [if_neg whole]
    have fixed := fix?_computes ⟨a.negative != b.negative,
      if n / d % 5 = 0 then n / d + 1 else n / d, e⟩
    rwa [significant_sticky _ (by omega) high below above] at fixed

end Context

section Apply

variable {a b : Decimal}

theorem Operator.compute?_computes (op : Operator) (placesA : -2 ≤ a.exponent)
    (placesB : -2 ≤ b.exponent) (divisor : op = .div → b.toRat ≠ 0) :
    Computes (significant (op.exact a.toRat b.toRat)) (op.compute? centContext a b) := by
  cases op with
  | add => exact Context.add?_computes placesA placesB
  | sub =>
    have negated := Context.add?_computes (b := b.neg) placesA placesB
    rwa [Decimal.toRat_neg, ← sub_eq_add_neg] at negated
  | mul => exact Context.mul?_computes a b
  | div =>
    refine Context.div?_computes ?_
    rw [ne_eq, ← Decimal.magnitude_eq_zero, ← Decimal.abs_toRat, abs_eq_zero]
    exact divisor rfl

theorem Operator.apply_zero (zero : b.toRat = 0) :
    Operator.div.apply a b = .error .divisionByZero := by
  have isZero := (Decimal.isZero_iff b).mpr zero
  simp [Operator.apply, isZero]

theorem Operator.apply_eq (op : Operator) (divisor : op = .div → b.toRat ≠ 0) : op.apply a b =
    ((op.compute? centContext a b).bind (·.onCents? centContext)).elim (.error (.overflow a op b))
      .ok := by
  have defined : ¬ (op = .div ∧ b.isZero = true) := by
    rintro ⟨division, zero⟩
    exact divisor division ((Decimal.isZero_iff b).mp zero)
  rw [Operator.apply, if_neg defined]
  cases (op.compute? centContext a b).bind (·.onCents? centContext) <;> rfl

/-- A result that has room is rounded to its first 28 digits and to cents after that. -/
theorem Operator.apply_fitting (op : Operator) (placesA : -2 ≤ a.exponent)
    (placesB : -2 ≤ b.exponent) (divisor : op = .div → b.toRat ≠ 0)
    (fits : |op.exact a.toRat b.toRat| < 10 ^ 28 - 1 / 2) :
    ∃ r, op.apply a b = .ok r ∧ r.Placed ∧
      r.toRat = roundCents (significant (op.exact a.toRat b.toRat)) := by
  have computed := op.compute?_computes placesA placesB divisor
  rw [← not_le, ← le_significant_iff, not_le] at fits
  obtain ⟨r, found, placed, value⟩ := computed.onCents fits
  exact ⟨r, by rw [op.apply_eq divisor, found, Option.elim_some], placed, value⟩

theorem Operator.apply_long (op : Operator) (placesA : -2 ≤ a.exponent)
    (placesB : -2 ≤ b.exponent) (divisor : op = .div → b.toRat ≠ 0)
    (long : 10 ^ 28 - 1 / 2 ≤ |op.exact a.toRat b.toRat|) :
    op.apply a b = .error (.overflow a op b) := by
  have computed := op.compute?_computes placesA placesB divisor
  rw [op.apply_eq divisor, computed.onCents_eq_none ((le_significant_iff _).mpr long),
    Option.elim_none]

def Operator.Ordinary : Operator → ℚ → ℚ → Prop
  | add, x, y => |x + y| < 10 ^ 26
  | sub, x, y => |x - y| < 10 ^ 26
  | mul, x, y => |x * y| < 10 ^ 24
  | div, x, _ => |x| < 10 ^ 23

theorem Decimal.cents {d : Decimal} (places : -2 ≤ d.exponent) :
    ∃ n : ℤ, d.toRat = n * (1 / 100) := by
  have cent : (10 : ℚ) ^ (-2 : ℤ) = 1 / 100 := by norm_num
  exact ⟨d.unitsOf (-2), by rw [d.toRat_eq_units places, cent]⟩

theorem roundsOnce_of_cents {x : ℚ} (small : |x| < 10 ^ 26) {n : ℤ} (cents : x = n * (1 / 100)) :
    RoundsOnce x := by
  refine ⟨representable_cents small, fun below => ?_⟩
  have fine := lastUnit_le (k := 25) (by decide) (by exact_mod_cast below)
  refine not_justBelowHalf_of_multiple (w := 1 / 1000) 5 (10 * |n|) ?_ ?_ ?_
  · norm_num at fine ⊢
    exact fine
  · norm_num
  · rw [cents, abs_mul]
    push_cast
    norm_num
    ring

theorem Operator.roundsOnce_of_ordinary (op : Operator) (placesA : -2 ≤ a.exponent)
    (placesB : -2 ≤ b.exponent) (ordinary : op.Ordinary a.toRat b.toRat) :
    RoundsOnce (op.exact a.toRat b.toRat) := by
  obtain ⟨n, left⟩ := Decimal.cents placesA
  obtain ⟨m, right⟩ := Decimal.cents placesB
  cases op with
  | add =>
    refine roundsOnce_of_cents ordinary (n := n + m) ?_
    rw [exact, left, right]
    push_cast
    ring
  | sub =>
    refine roundsOnce_of_cents ordinary (n := n - m) ?_
    rw [exact, left, right]
    push_cast
    ring
  | mul =>
    change |a.toRat * b.toRat| < 10 ^ 24 at ordinary
    change RoundsOnce (a.toRat * b.toRat)
    refine ⟨representable_cents (by linarith), fun _ => ?_⟩
    have fine := lastUnit_le (k := 24) (by decide) (by exact_mod_cast ordinary)
    refine not_justBelowHalf_of_multiple (w := 1 / 10000) 50 |n * m| ?_ ?_ ?_
    · norm_num at fine ⊢
      exact fine
    · norm_num
    · rw [left, right, abs_mul, abs_mul, abs_mul]
      push_cast
      norm_num [abs_mul]
      ring
  | div =>
    change |a.toRat| < 10 ^ 23 at ordinary
    change RoundsOnce (a.toRat / b.toRat)
    have value : |a.toRat / b.toRat| = (n.natAbs : ℚ) / m.natAbs := by
      rw [left, right, mul_div_mul_right _ _ (by norm_num), abs_div, Nat.cast_natAbs,
        Nat.cast_natAbs]
      push_cast
      rfl
    have few : n.natAbs < 10 ^ 25 := by
      have size : (n.natAbs : ℚ) * (1 / 100) < 10 ^ 23 := by
        rw [left, abs_mul] at ordinary
        rw [Nat.cast_natAbs]
        push_cast
        norm_num at ordinary ⊢
        exact ordinary
      have bound : (n.natAbs : ℚ) < 10 ^ 25 := by linarith
      exact_mod_cast bound
    refine ⟨representable_cents ?_, fun _ => not_justBelowHalf_of_quotient few value⟩
    have most : (n.natAbs : ℚ) / m.natAbs ≤ n.natAbs := by
      rcases Nat.eq_zero_or_pos m.natAbs with none | pos
      · simp [none]
      · exact div_le_self (Nat.cast_nonneg _) (by exact_mod_cast pos)
    have bound : (n.natAbs : ℚ) < 10 ^ 25 := by exact_mod_cast few
    rw [value]
    linarith

theorem Operator.apply_rounds (op : Operator) (placedA : a.Placed) (placedB : b.Placed)
    (smallA : |a.toRat| < 10 ^ 23)
    (divisor : op = .div → b.toRat ≠ 0) (small : |op.exact a.toRat b.toRat| < 10 ^ 23) :
    ∃ r, op.apply a b = .ok r ∧ r.Placed ∧ r.toRat = roundCents (op.exact a.toRat b.toRat) := by
  have ordinary : op.Ordinary a.toRat b.toRat := by
    cases op with
    | add => exact lt_trans small (by norm_num)
    | sub => exact lt_trans small (by norm_num)
    | mul => exact lt_trans small (by norm_num)
    | div => exact smallA
  obtain ⟨r, applied, placed, value⟩ := op.apply_fitting placedA.1 placedB.1 divisor
    (lt_trans small (by norm_num))
  have once := op.roundsOnce_of_ordinary placedA.1 placedB.1 ordinary
  exact ⟨r, applied, placed, by rw [value, (roundCents_significant_iff _).mpr once]⟩

/-- An operation fails if it divides by zero or if its result has no room. Any other result is
rounded twice, which shows in the cents exactly if the exact result does not round once. -/
theorem Operator.apply_outcome (op : Operator) (placesA : -2 ≤ a.exponent)
    (placesB : -2 ≤ b.exponent) :
    ((∃ e, op.apply a b = .error e) ↔
      op = .div ∧ b.toRat = 0 ∨ 10 ^ 28 - 1 / 2 ≤ |op.exact a.toRat b.toRat|) ∧
      (∀ r, op.apply a b = .ok r →
        r.toRat = roundCents (significant (op.exact a.toRat b.toRat)) ∧
        (r.toRat = roundCents (op.exact a.toRat b.toRat) ↔
          RoundsOnce (op.exact a.toRat b.toRat))) ∧
      (op.Ordinary a.toRat b.toRat → RoundsOnce (op.exact a.toRat b.toRat)) := by
  refine ⟨?_, ?_, op.roundsOnce_of_ordinary placesA placesB⟩
  · constructor
    · rintro ⟨e, failed⟩
      by_contra fine
      obtain ⟨divisor, fits⟩ := not_or.mp fine
      obtain ⟨r, applied, _⟩ := op.apply_fitting placesA placesB
        (fun division zero => divisor ⟨division, zero⟩) (not_le.mp fits)
      rw [applied] at failed
      cases failed
    · intro bad
      by_cases division : op = .div ∧ b.toRat = 0
      · obtain ⟨rfl, zero⟩ := division
        exact ⟨_, apply_zero zero⟩
      · exact ⟨_, op.apply_long placesA placesB (fun div zero => division ⟨div, zero⟩)
          (bad.resolve_left division)⟩
  · intro r applied
    have divisor : op = .div → b.toRat ≠ 0 := by
      rintro rfl zero
      rw [apply_zero zero] at applied
      cases applied
    have value : r.toRat = roundCents (significant (op.exact a.toRat b.toRat)) := by
      rcases lt_or_ge |op.exact a.toRat b.toRat| (10 ^ 28 - 1 / 2) with fits | long
      · obtain ⟨r', found, _, value⟩ := op.apply_fitting placesA placesB divisor fits
        rw [found] at applied
        cases applied
        exact value
      · rw [op.apply_long placesA placesB divisor long] at applied
        cases applied
    exact ⟨value, by rw [value, roundCents_significant_iff]⟩

theorem Operator.apply_outcome_full :
    ∃ r, Operator.add.apply ⟨false, 12345678901234567890123456, 0⟩ ⟨false, 78, -2⟩ = .ok r ∧
      r.toRat = roundCents (12345678901234567890123456 + 78 / 100) := by
  have applied : Operator.add.apply ⟨false, 12345678901234567890123456, 0⟩ ⟨false, 78, -2⟩ =
      .ok ⟨false, 1234567890123456789012345678, -2⟩ := rfl
  obtain ⟨_, once, ordinary⟩ := Operator.add.apply_outcome
    (a := ⟨false, 12345678901234567890123456, 0⟩) (b := ⟨false, 78, -2⟩) (by decide) (by decide)
  have whole : Operator.add.exact (Decimal.toRat ⟨false, 12345678901234567890123456, 0⟩)
      (Decimal.toRat ⟨false, 78, -2⟩) = 12345678901234567890123456 + 78 / 100 := by
    norm_num [Operator.exact, Decimal.toRat, Decimal.signed]
  rw [whole] at once ordinary
  refine ⟨_, applied, (once _ applied).2.mpr (ordinary ?_)⟩
  change |Operator.add.exact _ _| < 10 ^ 26
  rw [whole]
  norm_num [abs_of_pos]

/-- A sum of 29 digits loses its last place, and is no error. -/
theorem Operator.long_sum_loses_place :
    ¬ ∀ (op : Operator) (a b : Decimal), -2 ≤ a.exponent → -2 ≤ b.exponent →
      (∃ e, op.apply a b = .error e) ∨
        ∃ r, op.apply a b = .ok r ∧ r.toRat = roundCents (op.exact a.toRat b.toRat) := by
  intro once
  have applied : Operator.add.apply ⟨false, 900000000000000000000000000, 0⟩ ⟨false, 5, -2⟩ =
      .ok ⟨false, 9000000000000000000000000001, -1⟩ := rfl
  rcases once .add ⟨false, 900000000000000000000000000, 0⟩ ⟨false, 5, -2⟩ (by decide) (by decide)
    with ⟨e, failed⟩ | ⟨r, found, value⟩
  · rw [applied] at failed
    cases failed
  · rw [applied] at found
    cases found
    have cents : Operator.add.exact (Decimal.toRat ⟨false, 900000000000000000000000000, 0⟩)
        (Decimal.toRat ⟨false, 5, -2⟩) = (90000000000000000000000000005 : ℤ) * (1 / 100) := by
      norm_num [Operator.exact, Decimal.toRat, Decimal.signed]
    rw [cents, roundCents_of_cents] at value
    norm_num [Decimal.toRat, Decimal.signed] at value

end Apply

end DiceNotation
