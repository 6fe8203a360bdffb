import DiceNotation.Proofs.Decimal.Sums
import DiceNotation.Proofs.Roll.History

/-!
The combined total of a repetition. The totals are added in a context that rounds to 28 digits and
says nothing about it, so the combined total is their sum only if every sum on the way has at most
so many digits.
-/
namespace DiceNotation

variable {σ : Type} [Source σ] {built limits : Limits}

def SingleResult.number (r : SingleResult) : ℚ := r.total.amount.toRat

theorem Expression.evaluate_placed {e : Expression} (h : e.WellFormed built) {s last : σ}
    {result : Evaluation}
    (ran : (e.evaluate limits : Rolling σ Evaluation).run s = (.ok result, last)) :
    result.value.Placed := by
  induction e generalizing s last result with
  | dice term =>
    obtain ⟨⟨rolled, total⟩, now, rolling, finish⟩ := run_bind_eq_ok ran
    obtain ⟨dice, later, _, made⟩ := run_bind_eq_ok rolling
    obtain ⟨same, _⟩ := run_pure_eq_ok made
    obtain ⟨rfl, _⟩ := run_pure_eq_ok finish
    cases same
    rw [Total.amount_ofDice]
    exact Decimal.placed_ofInt _
  | integer value =>
    obtain ⟨rfl, _⟩ := run_pure_eq_ok ran
    exact Decimal.placed_ofInt value
  | float value =>
    obtain ⟨rfl, _⟩ := run_pure_eq_ok ran
    have places : value.exponent = -1 ∨ value.exponent = -2 := h
    have placed : value.Placed := ⟨by omega, by omega⟩
    exact placed
  | group inner ih =>
    obtain ⟨evaluation, now, inside, finish⟩ := run_bind_eq_ok ran
    obtain ⟨rfl, _⟩ := run_pure_eq_ok finish
    have placed := ih h inside
    exact placed
  | binary op left right ih ihRight =>
    obtain ⟨l, _, _, ran⟩ := run_bind_eq_ok ran
    obtain ⟨r, _, _, ran⟩ := run_bind_eq_ok ran
    obtain ⟨value, _, combined, finish⟩ := run_bind_eq_ok ran
    obtain ⟨rfl, _⟩ := run_pure_eq_ok finish
    exact (Operator.apply_placed (combine_eq_ok combined).1).1

theorem Evaluation.total_placed {e : Evaluation} (h : e.value.Placed) : e.total.amount.Placed := by
  unfold total
  split
  · exact Decimal.placed_ofInt _
  · exact h

theorem rollTimes_placed {e : Expression} (h : e.WellFormed built) {text : String} {n : ℕ}
    {s last : σ} {rolls : List SingleResult}
    (rolled : (rollTimes limits e text n : Rolling σ (List SingleResult)).run s =
      (.ok rolls, last)) : ∀ r ∈ rolls, r.total.amount.Placed := by
  induction n generalizing s rolls with
  | zero =>
    obtain ⟨rfl, _⟩ := run_pure_eq_ok rolled
    exact nofun
  | succ n ih =>
    obtain ⟨first, now, one, rolled⟩ := run_bind_eq_ok rolled
    obtain ⟨rest, later, others, finish⟩ := run_bind_eq_ok rolled
    obtain ⟨rfl, rfl⟩ := run_pure_eq_ok finish
    obtain ⟨evaluation, _, ran, made⟩ := run_bind_eq_ok one
    obtain ⟨rfl, _⟩ := run_pure_eq_ok made
    have placed := Evaluation.total_placed (Expression.evaluate_placed h ran)
    exact List.forall_mem_cons.mpr ⟨placed, ih others⟩

theorem sumOfTotals?_eq (rolls : List SingleResult) : sumOfTotals? rolls =
    (rolls.map fun r => r.total.amount).foldlM sumContext.add? (.ofInt 0) := by
  rw [List.foldlM_map]
  rfl

theorem sumOfTotals?_exact {rolls : List SingleResult} {total : Decimal}
    (summed : sumOfTotals? rolls = some total) (placed : ∀ r ∈ rolls, r.total.amount.Placed)
    (short : ∀ first, first <+: rolls → Representable 28 (first.map SingleResult.number).sum) :
    total.toRat = (rolls.map SingleResult.number).sum := by
  have low {d : Decimal} (h : d.Placed) : sumContext.tiny ≤ d.exponent :=
    (by decide : sumContext.tiny ≤ -2).trans h.1
  rw [sumOfTotals?_eq] at summed
  have exact := Context.foldlM_add?_exact (by decide) (by decide) summed
    (low (Decimal.placed_ofInt 0))
    (List.forall_mem_map.mpr fun r member => low (placed r member)) (by
      intro first part _
      obtain ⟨front, within, rfl⟩ := List.prefix_map_iff.mp part
      have shown := short front within
      rw [Decimal.toRat_ofInt, Int.cast_zero, zero_add, List.map_map]
      exact shown)
  rw [exact, Decimal.toRat_ofInt, Int.cast_zero, zero_add, List.map_map]
  rfl

/-- A total of that many digits is far enough from the largest exponent that it can be added to any
number of others. -/
def addableDigits : ℕ := 999970

theorem sumOfTotals?_bounded {rolls : List SingleResult}
    (small : ∀ r ∈ rolls, |r.number| ≤ 10 ^ addableDigits) :
    ∃ sum, sumOfTotals? rolls = some sum := by
  have nothing : (Decimal.ofInt 0).magnitude = 0 := Decimal.magnitude_eq_zero.mpr rfl
  rw [sumOfTotals?_eq]
  apply Context.foldlM_add?_bounded (m := addableDigits) (by decide) (by decide) (by decide)
  · rw [nothing]
    exact pow_nonneg (by norm_num) _
  · intro d member
    obtain ⟨r, inside, rfl⟩ := List.mem_map.mp member
    rw [← Decimal.abs_toRat]
    exact small r inside

theorem exists_large_of_overflow {rolls : List SingleResult}
    (overflow : sumOfTotals? rolls = none) : ∃ r ∈ rolls, 10 ^ addableDigits < |r.number| := by
  by_contra small
  simp only [not_exists, not_and, not_lt] at small
  obtain ⟨sum, added⟩ := sumOfTotals?_bounded small
  rw [overflow] at added
  cases added

theorem sumOfTotals?_overflow {r : SingleResult} (fine : r.total.amount.exponent ≤ 0)
    (large : 10 ^ 1000000 ≤ |r.number|) : sumOfTotals? [r] = none := by
  have top : sumContext.maxExponent + 1 = (1000000 : ℕ) := rfl
  have added : sumContext.add? (.ofInt 0) r.total.amount = none := by
    apply Context.add?_overflow rfl fine
    rw [top, zpow_natCast, ← Decimal.abs_toRat]
    exact large
  rw [sumOfTotals?_eq, List.map_singleton, List.foldlM_cons, added]
  rfl

theorem Repetition.roll_overflow {r : Repetition} (summed : r.mode = .sum) {s last : σ}
    {rolls : List SingleResult}
    (rolled : (rollTimes limits r.inner r.text r.times.toNat :
      Rolling σ (List SingleResult)).run s = (.ok rolls, last))
    (overflow : sumOfTotals? rolls = none) :
    (r.roll limits : Rolling σ RepeatedResult).run s = (.error .sumOverflow, last) := by
  rw [roll, run_bind_of_ok rolled, summed]
  simp only [overflow]
  rfl

end DiceNotation
