import DiceNotation.Proofs.Command.Reason
import DiceNotation.Proofs.Dice.Count
import DiceNotation.Proofs.Result.Rendering
import DiceNotation.Proofs.Roll.CombinedTotal
import DiceNotation.Proofs.Roll.Replay

/-!
A command that was built fails in arithmetic, or in the sum of a repetition. Its dice never fail on
a source that answers fairly, and that sum only overflows for more dice than anybody rolls.
-/
namespace DiceNotation

open Text

variable {σ α β : Type}

section Recording

variable [Source σ]

/-- A run and all that its source was asked for, as a recorder between them writes it down: dice
that there are, each answered with one of its faces. -/
structure Recorded (m : Rolling σ α) (n : Rolling (Recorder σ) α) (s : σ) (draws : List Draw)
    (outcome : Except RollError α) (last : σ) : Prop where
  ran : m.run s = (outcome, last)
  written : ∀ requests, n.run ⟨s, requests⟩ = (outcome, ⟨last, requests ++ draws.map Draw.request⟩)
  answers : Answers s draws last
  possible : ∀ d ∈ draws, d.Possible

namespace Recorded

variable {m : Rolling σ α} {n : Rolling (Recorder σ) α} {f : α → Rolling σ β}
  {g : α → Rolling (Recorder σ) β} {s now last : σ} {draws more : List Draw}

theorem fair {outcome : Except RollError α} (h : Recorded m n s draws outcome last)
    (fair : Fair s) : Fair last :=
  fair.after h.answers fun d member => (h.possible d member).1

theorem pure (a : α) (s : σ) :
    Recorded (Pure.pure a : Rolling σ α) (Pure.pure a) s [] (.ok a) s where
  ran := rfl
  written := by
    intro requests
    rw [List.map_nil, List.append_nil]
    rfl
  answers := .nil s
  possible := nofun

theorem throw (e : RollError) (s : σ) :
    Recorded (MonadExcept.throw e : Rolling σ α) (MonadExcept.throw e) s [] (.error e) s where
  ran := rfl
  written := by
    intro requests
    rw [List.map_nil, List.append_nil]
    rfl
  answers := .nil s
  possible := nofun

theorem bind {a : α} {outcome : Except RollError β} (h : Recorded m n s draws (.ok a) now)
    (k : Recorded (f a) (g a) now more outcome last) :
    Recorded (m >>= f) (n >>= g) s (draws ++ more) outcome last where
  ran := by rw [run_bind_of_ok h.ran, k.ran]
  written := by
    intro requests
    rw [run_bind_of_ok (h.written requests), k.written, List.map_append, List.append_assoc]
  answers := h.answers.append k.answers
  possible := List.forall_mem_append.mpr ⟨h.possible, k.possible⟩

theorem stop {e : RollError} (h : Recorded m n s draws (.error e) last) :
    Recorded (m >>= f) (n >>= g) s draws (.error e) last where
  ran := run_bind_of_error h.ran
  written := fun requests => run_bind_of_error (h.written requests)
  answers := h.answers
  possible := h.possible

end Recorded

inductive Ends (Q : α → Prop) : Except RollError α → Prop where
  | result {a : α} (holds : Q a) : Ends Q (.ok a)
  | arithmetic (e : ArithmeticError) : Ends Q (.error (.arithmetic e))

structure Safe (m : Rolling σ α) (n : Rolling (Recorder σ) α) (Q : List Draw → α → Prop) :
    Prop where
  run : ∀ {s : σ}, Fair s → ∃ draws outcome last,
    Recorded m n s draws outcome last ∧ Ends (Q draws) outcome

namespace Safe

variable {m : Rolling σ α} {n : Rolling (Recorder σ) α} {f : α → Rolling σ β}
  {g : α → Rolling (Recorder σ) β} {Q : List Draw → α → Prop} {R : List Draw → β → Prop}

theorem pure {a : α} (q : Q [] a) : Safe (Pure.pure a : Rolling σ α) (Pure.pure a) Q := by
  constructor
  intro s _
  exact ⟨[], _, s, .pure a s, .result q⟩

theorem bind (first : Safe m n Q)
    (next : ∀ draws a, Q draws a → Safe (f a) (g a) fun more b => R (draws ++ more) b) :
    Safe (m >>= f) (n >>= g) R := by
  constructor
  intro s fair
  obtain ⟨draws, outcome, now, recorded, ends⟩ := first.run fair
  cases ends with
  | result holds =>
    obtain ⟨more, outcome, last, later, endsLater⟩ :=
      (next draws _ holds).run (recorded.fair fair)
    refine ⟨draws ++ more, outcome, last, recorded.bind later, ?_⟩
    cases endsLater with
    | result holds => exact .result holds
    | arithmetic e => exact .arithmetic e
  | arithmetic e => exact ⟨draws, _, now, recorded.stop, .arithmetic e⟩

end Safe

theorem DiceTerm.rollDice_recorded {built : Limits} {t : DiceTerm} (h : t.WellFormed built)
    (limits : Limits) {s : σ} (fair : Fair s) :
    ∃ dice last, Recorded (t.rollDice limits) (t.rollDice limits) s (drawsOf t.sides dice)
      (.ok dice) last := by
  obtain ⟨dice, last, ran, _⟩ := t.rollDice_finishes h limits fair
  obtain ⟨_, answers, rfl, plays⟩ := t.rollDice_follows (τ := Recorder σ) limits ran
  have sided := drawsOf_sides (fun n eq => (h.sides n eq).1) dice
  exact ⟨dice, last, ran, fun requests => plays.finishes (Recorder.answers answers requests),
    answers, fair.possible answers sided⟩

end Recording

/-- A value that so many dice may have, or a literal of readable length. -/
def Decimal.Under (n : ℕ) (d : Decimal) : Prop :=
  d.magnitude ≤ (n + 1) * 10 ^ maxNumeralDigits

theorem Decimal.Under.mono {d : Decimal} {n k : ℕ} (h : d.Under n) (more : n ≤ k) : d.Under k := by
  have cast : (n : ℚ) ≤ k := by exact_mod_cast more
  have wide : ((n : ℚ) + 1) * 10 ^ maxNumeralDigits ≤ (k + 1) * 10 ^ maxNumeralDigits := by gcongr
  exact h.trans wide

theorem Decimal.under_ofInt {v : ℤ} {n : ℕ} (h : |v| ≤ (n + 1) * 10 ^ maxNumeralDigits) :
    (ofInt v).Under n := by
  rw [Under, ← abs_toRat, toRat_ofInt]
  exact_mod_cast h

theorem Decimal.under_of_digits {d : Decimal} (short : d.digits ≤ maxNumeralDigits)
    (whole : d.exponent ≤ 0) (n : ℕ) : d.Under n := by
  have bound : d.magnitude ≤ 10 ^ maxNumeralDigits := by
    apply d.magnitude_lt_pow.le.trans
    rw [← zpow_natCast]
    apply zpow_le_zpow_right₀ (by norm_num)
    unfold adjusted
    omega
  have unit : (0 : ℚ) < 10 ^ maxNumeralDigits := pow_pos (by norm_num) _
  have many : (0 : ℚ) ≤ n * 10 ^ maxNumeralDigits := mul_nonneg n.cast_nonneg unit.le
  rw [Under, add_mul, one_mul]
  exact bound.trans (le_add_of_nonneg_left many)

theorem Decimal.abs_truncate_le (d : Decimal) : |(d.truncate : ℚ)| ≤ d.magnitude := by
  obtain ⟨whole, eq⟩ : ∃ whole : ℕ, whole =
      scaleUp d.coefficient d.exponent.toNat / Nat.pow 10 (-d.exponent).toNat := ⟨_, rfl⟩
  have size : |(d.truncate : ℚ)| = whole := by
    unfold truncate
    rw [← eq]
    split <;> simp
  have split : (10 : ℚ) ^ d.exponent = 10 ^ d.exponent.toNat / 10 ^ (-d.exponent).toNat := by
    rw [← zpow_natCast, ← zpow_natCast, ← zpow_sub₀ (by norm_num)]
    congr 1
    omega
  rw [size, eq, scaleUp_eq, Nat.pow_eq, magnitude, split, ← mul_div_assoc]
  apply Nat.cast_div_le.trans_eq
  push_cast
  rfl

theorem abs_sum_le {values : List ℤ} {b : ℤ} (h : ∀ v ∈ values, |v| ≤ b) :
    |values.sum| ≤ values.length * b := by
  induction values with
  | nil => simp
  | cons v values ih =>
    rw [List.forall_mem_cons] at h
    have triangle := abs_add_le v values.sum
    have rest := ih h.2
    rw [List.sum_cons, List.length_cons]
    push_cast
    linarith [h.1]

theorem Scoring.abs_score_le (s : Scoring) (value : ℤ) : |s.score value| ≤ 2 := by
  have successes : 0 ≤ s.successes value ∧ s.successes value ≤ 2 := by
    unfold successes
    split
    · decide
    · split <;> split <;> decide
  rw [abs_le]
  unfold score
  split <;> omega

theorem abs_diceTotal_le (scoring : Option Scoring) {dice : List Die} {b : ℤ} (wide : 2 ≤ b)
    (h : ∀ d ∈ dice, |d.value| ≤ b) : |diceTotal scoring dice| ≤ dice.length * b := by
  have fewer : ((liveValues dice).length : ℤ) ≤ dice.length := by
    rw [liveValues, List.length_map]
    exact_mod_cast List.length_filter_le _ _
  have room : (liveValues dice).length * b ≤ dice.length * b :=
    mul_le_mul_of_nonneg_right fewer (by omega)
  unfold diceTotal
  cases scoring with
  | none =>
    apply (abs_sum_le ?_).trans room
    intro v member
    obtain ⟨d, live, rfl⟩ := List.mem_map.mp member
    exact h d (List.mem_of_mem_filter live)
  | some s =>
    have scores : |((liveValues dice).map s.score).sum| ≤
        ((liveValues dice).map s.score).length * b := by
      apply abs_sum_le
      intro v member
      obtain ⟨value, _, rfl⟩ := List.mem_map.mp member
      exact (s.abs_score_le value).trans wide
    rw [List.length_map] at scores
    exact scores.trans room

theorem length_le_diceTotal {dice : List Die} (h : ∀ d ∈ dice, d.live = true ∧ 1 ≤ d.value) :
    (dice.length : ℤ) ≤ diceTotal none dice := by
  have all : dice.filter Die.live = dice := List.filter_eq_self.mpr fun d member => (h d member).1
  rw [diceTotal, liveValues, all]
  simpa using List.card_nsmul_le_sum (dice.map Die.value) 1 (by simpa using fun d m => (h d m).2)

def Limits.capacity (limits : Limits) : ℕ := 10 ^ maxNumeralDigits * (limits.cap + 2) ^ 24

section Evaluation

variable [Source σ] {built : Limits}

theorem DiceTerm.WellFormed.length_le_capacity {t : DiceTerm} (h : t.WellFormed built)
    {limits : Limits} {s last : σ} {dice : List Die}
    (ran : (t.rollDice limits).run s = (.ok dice, last)) : dice.length ≤ limits.capacity := by
  have length := (t.rollDice_length limits).result ran
  have count : t.count.toNat + 1 ≤ 10 ^ maxNumeralDigits := by
    have readable : t.count < ((10 ^ maxNumeralDigits : ℕ) : ℤ) := by
      exact_mod_cast h.count.2.2.2
    have some := h.count.1
    omega
  have most := Nat.mul_le_mul_right ((limits.cap + 2) ^ 24) count
  unfold Limits.capacity
  omega

theorem DiceTerm.WellFormed.abs_value_le {t : DiceTerm} (h : t.WellFormed built) {d : Die}
    (inRange : d.InRange t.sides) : |d.value| ≤ 10 ^ maxNumeralDigits := by
  have one := readable_one.2
  rw [abs_le]
  unfold Die.InRange at inRange
  cases sides : t.sides with
  | none =>
    rw [sides] at inRange
    dsimp only at inRange
    omega
  | some n =>
    rw [sides] at inRange
    have readable := (h.sides n sides).2.2.2
    dsimp only at inRange
    omega

theorem DiceTerm.roll_safe {t : DiceTerm} (h : t.WellFormed built) (limits : Limits) :
    Safe (t.roll limits : Rolling σ (RolledTerm × Total)) (t.roll limits) fun draws result =>
      result.1.InRange ∧ result.2.amount.Under (min draws.length limits.capacity) := by
  constructor
  intro s fair
  obtain ⟨dice, last, recorded⟩ := t.rollDice_recorded h limits fair
  have inRange : ∀ d ∈ dice, d.InRange t.sides := by
    intro d member
    exact Die.inRange_of_draw (recorded.possible _ (List.mem_map_of_mem member))
  refine ⟨_, _, last, recorded.bind (.pure _ last), .result ⟨inRange, ?_⟩⟩
  have drawn : (drawsOf t.sides dice ++ []).length = dice.length := by
    rw [List.append_nil, drawsOf, List.length_map]
  rw [Total.amount_ofDice, drawn, Nat.min_eq_left (h.length_le_capacity recorded.ran)]
  apply Decimal.under_ofInt
  have two : (2 : ℤ) ≤ 10 ^ maxNumeralDigits := by
    have one := readable_one.2
    omega
  have most := abs_diceTotal_le t.scoring two fun d member => h.abs_value_le (inRange d member)
  apply most.trans
  exact mul_le_mul_of_nonneg_right (by omega) (by omega)

/-- Explosions on every face bring as many points as the cap allows for dice. -/
theorem DiceTerm.exploding_total {limits : Limits} {t : DiceTerm} (h : t.WellFormed built)
    {n : ℤ} (sided : t.sides = some n) (only : t.modifiers = [⟨.explodeAll, some 1⟩]) {s : σ}
    (fair : Fair s) :
    ∃ dice last, (t.rollDice limits).run s = (.ok dice, last) ∧
      (limits.maxExplosions.toNat : ℤ) ≤ diceTotal none dice := by
  obtain ⟨dice, last, recorded⟩ := t.rollDice_recorded h limits fair
  have rolls : 0 < t.count.toNat := Int.lt_toNat.mpr h.count.1
  obtain ⟨live, full⟩ := (t.rollDice_exploding only rolls limits).result recorded.ran
  have high : ∀ d ∈ dice, 1 ≤ d.value := by
    intro d member
    have possible := recorded.possible _ (List.mem_map_of_mem member)
    rw [sided] at possible
    exact possible.2.1
  have length := length_le_diceTotal fun d member => ⟨live d member, high d member⟩
  rw [full high] at length
  exact ⟨dice, last, recorded.ran, by omega⟩

theorem combine_safe (op : Operator) (left right : Decimal) :
    Safe (combine op left right : Rolling σ Decimal) (combine op left right)
      fun _ value => op.apply left right = .ok value := by
  constructor
  intro s _
  unfold combine
  cases applied : op.apply left right with
  | ok value => exact ⟨[], _, s, .pure value s, .result rfl⟩
  | error e => exact ⟨[], _, s, .throw _ s, .arithmetic e⟩

/-- What a run leaves behind once it has drawn so many dice. -/
structure Sound (limits : Limits) (drawn : ℕ) (history : List HistoryItem) (amount : Decimal) :
    Prop where
  dice : ∀ term ∈ rolledTerms history, term.InRange
  amount : amount.Under (min drawn limits.capacity)

namespace Sound

variable {limits : Limits} {drawn more : ℕ} {history behind : List HistoryItem}
  {amount other value : Decimal}

theorem mono (h : Sound limits drawn history amount) (later : drawn ≤ more) :
    Sound limits more history amount where
  dice := h.dice
  amount := h.amount.mono (min_le_min_right _ later)

theorem group (h : Sound limits drawn history amount) :
    Sound limits drawn (.paren .opening :: history ++ [.paren .closing]) amount where
  dice := by
    have terms : rolledTerms (.paren .opening :: history ++ [.paren .closing]) =
        rolledTerms history := by simp [rolledTerms]
    rw [terms]
    exact h.dice
  amount := h.amount

/-- The result of an operation is small, whatever its operands are. -/
theorem binary (h : Sound limits drawn history amount) (k : Sound limits more behind other)
    {op : Operator} (applied : op.apply amount other = .ok value) (last : ℕ) :
    Sound limits last (history ++ .operator op :: behind) value where
  dice := by
    have terms : rolledTerms (history ++ .operator op :: behind) =
        rolledTerms history ++ rolledTerms behind := by simp [rolledTerms]
    rw [terms, List.forall_mem_append]
    exact ⟨h.dice, k.dice⟩
  amount := by
    obtain ⟨placed, few⟩ := Operator.apply_placed applied
    exact Decimal.under_of_digits (few.trans (by decide)) placed.2 _

end Sound

def Expression.decimals : Expression → List Decimal
  | dice _ => []
  | integer _ => []
  | float value => [value]
  | group inner => inner.decimals
  | binary _ left right => left.decimals ++ right.decimals

theorem Expression.evaluate_safe {e : Expression} (h : e.WellFormed built)
    (short : ∀ d ∈ e.decimals, d.digits ≤ maxNumeralDigits) (limits : Limits) :
    Safe (e.evaluate limits : Rolling σ Evaluation) (e.evaluate limits)
      fun draws result => Sound limits draws.length result.history result.value := by
  induction e with
  | dice term =>
    apply (DiceTerm.roll_safe h limits).bind
    intro draws result rolled
    apply Safe.pure
    rw [List.append_nil]
    exact ⟨List.forall_mem_singleton.mpr rolled.1, rolled.2⟩
  | integer value =>
    have readable : (value.natAbs : ℤ) < 10 ^ maxNumeralDigits := h.2
    have bound : |value| ≤ ((0 : ℕ) + 1) * 10 ^ maxNumeralDigits := by
      rw [Nat.cast_zero, zero_add, one_mul, Int.abs_eq_natAbs]
      exact readable.le
    apply Safe.pure
    exact ⟨nofun, (Decimal.under_ofInt bound).mono (Nat.zero_le _)⟩
  | float value =>
    have places : value.exponent = -1 ∨ value.exponent = -2 := h
    have few := short value (List.mem_singleton_self value)
    apply Safe.pure
    exact ⟨nofun, Decimal.under_of_digits few (by omega) _⟩
  | group inner ih =>
    apply (ih h short).bind
    intro draws result sound
    apply Safe.pure
    rw [List.append_nil]
    exact sound.group
  | binary op left right ihLeft ihRight =>
    rw [Expression.decimals, List.forall_mem_append] at short
    apply (ihLeft h.1 short.1).bind
    intro draws l soundL
    apply (ihRight h.2.1 short.2).bind
    intro more r soundR
    apply (combine_safe op l.value r.value).bind
    intro none value applied
    apply Safe.pure
    exact soundL.binary soundR applied _

end Evaluation

theorem Evaluation.total_under {e : Evaluation} {n : ℕ} (h : e.value.Under n) :
    e.total.amount.Under n := by
  unfold total
  split
  · apply Decimal.under_ofInt
    have whole := e.value.abs_truncate_le.trans h
    exact_mod_cast whole
  · exact h

section Repetition

variable [Source σ] {built : Limits}

theorem Expression.roll_safe {e : Expression} (h : e.WellFormed built)
    (short : ∀ d ∈ e.decimals, d.digits ≤ maxNumeralDigits) (limits : Limits) (text : String) :
    Safe (e.roll limits text : Rolling σ SingleResult) (e.roll limits text)
      fun draws r => Sound limits draws.length r.history r.total.amount := by
  apply (evaluate_safe h short limits).bind
  intro draws evaluation sound
  apply Safe.pure
  rw [List.append_nil]
  exact ⟨sound.dice, Evaluation.total_under sound.amount⟩

theorem rollTimes_safe {e : Expression} (h : e.WellFormed built)
    (short : ∀ d ∈ e.decimals, d.digits ≤ maxNumeralDigits) (limits : Limits) (text : String)
    (n : ℕ) :
    Safe (rollTimes limits e text n : Rolling σ (List SingleResult)) (rollTimes limits e text n)
      fun draws rolls => ∀ r ∈ rolls, Sound limits draws.length r.history r.total.amount := by
  induction n with
  | zero =>
    apply Safe.pure
    exact nofun
  | succ n ih =>
    apply (Expression.roll_safe h short limits text).bind
    intro draws first sound
    apply ih.bind
    intro more rest sounds
    apply Safe.pure
    rw [List.append_nil, List.length_append, List.forall_mem_cons]
    refine ⟨sound.mono (Nat.le_add_right _ _), ?_⟩
    intro r member
    exact (sounds r member).mono (Nat.le_add_left _ _)

/-- A roll that no one sees the end of: more than 10^900000 dice are drawn, and a cap on rerolls or
explosions allows so many. -/
def Endless (limits : Limits) (drawn : ℕ) : Prop :=
  10 ^ 900000 < drawn ∧ 10 ^ 30000 < limits.cap

theorem add_two_le_pow {n a : ℕ} (few : n ≤ 10 ^ a) : n + 2 ≤ 10 ^ (a + 1) := by
  have unit : 0 < 10 ^ a := Nat.pow_pos (by decide)
  rw [Nat.pow_succ]
  omega

theorem Decimal.Under.magnitude_le {d : Decimal} {n a m : ℕ} (h : d.Under n) (few : n ≤ 10 ^ a)
    (room : a + 1 + maxNumeralDigits ≤ m) : d.magnitude ≤ 10 ^ m := by
  have next : n + 1 ≤ 10 ^ (a + 1) := (Nat.le_succ _).trans (add_two_le_pow few)
  have cast : (n : ℚ) + 1 ≤ 10 ^ (a + 1) := by exact_mod_cast next
  have unit : (0 : ℚ) ≤ 10 ^ maxNumeralDigits := pow_nonneg (by norm_num) _
  calc d.magnitude ≤ (n + 1) * 10 ^ maxNumeralDigits := h
    _ ≤ 10 ^ (a + 1) * 10 ^ maxNumeralDigits := mul_le_mul_of_nonneg_right cast unit
    _ = 10 ^ (a + 1 + maxNumeralDigits) := (pow_add _ _ _).symm
    _ ≤ 10 ^ m := pow_le_pow_right₀ (by norm_num) room

theorem Limits.capacity_le {limits : Limits} {a m : ℕ} (small : limits.cap ≤ 10 ^ a)
    (room : maxNumeralDigits + 24 * (a + 1) ≤ m) : limits.capacity ≤ 10 ^ m := by
  have power : (limits.cap + 2) ^ 24 ≤ 10 ^ (24 * (a + 1)) := by
    rw [Nat.mul_comm, Nat.pow_mul]
    exact Nat.pow_le_pow_left (add_two_le_pow small) 24
  calc limits.capacity ≤ 10 ^ maxNumeralDigits * 10 ^ (24 * (a + 1)) :=
        Nat.mul_le_mul_left _ power
    _ = 10 ^ (maxNumeralDigits + 24 * (a + 1)) := (Nat.pow_add _ _ _).symm
    _ ≤ 10 ^ m := Nat.pow_le_pow_right (by decide) room

/-- A sum overflows only for totals that take an endless roll. -/
theorem sumOfTotals?_endless {limits : Limits} {drawn : ℕ} {rolls : List SingleResult}
    (sounds : ∀ r ∈ rolls, Sound limits drawn r.history r.total.amount)
    (overflow : sumOfTotals? rolls = none) : Endless limits drawn := by
  have many : 10 ^ 900000 < min drawn limits.capacity := by
    obtain ⟨r, member, large⟩ := exists_large_of_overflow overflow
    by_contra few
    have small : r.total.amount.magnitude ≤ 10 ^ addableDigits :=
      (sounds r member).amount.magnitude_le (Nat.not_lt.mp few) (by decide)
    rw [← Decimal.abs_toRat] at small
    exact absurd small (not_le.mpr large)
  obtain ⟨draws, capacity⟩ := lt_min_iff.mp many
  refine ⟨draws, ?_⟩
  by_contra small
  have less := Limits.capacity_le (m := 900000) (Nat.not_lt.mp small) (by decide)
  exact Nat.not_lt.mpr less capacity

theorem Repetition.roll_safe {r : Repetition} (h : r.inner.WellFormed built)
    (short : ∀ d ∈ r.inner.decimals, d.digits ≤ maxNumeralDigits) (limits : Limits) {s : σ}
    (fair : Fair s) : ∃ draws outcome last,
      Recorded (r.roll limits : Rolling σ RepeatedResult) (r.roll limits) s draws outcome last ∧
        match outcome with
        | .ok result => ∀ roll ∈ result.rolls, ∀ term ∈ rolledTerms roll.history, term.InRange
        | .error e =>
          (∃ a, e = .arithmetic a) ∨
            e = .sumOverflow ∧ r.mode = .sum ∧ Endless limits draws.length := by
  obtain ⟨draws, outcome, last, recorded, ends⟩ :=
    (rollTimes_safe h short limits r.text r.times.toNat).run fair
  unfold Repetition.roll
  cases ends with
  | arithmetic e => exact ⟨draws, _, last, recorded.stop, .inl ⟨e, rfl⟩⟩
  | @result rolls sounds =>
    have inRange : ∀ roll ∈ rolls, ∀ term ∈ rolledTerms roll.history, term.InRange :=
      fun roll member => (sounds roll member).dice
    cases mode : r.mode with
    | plain => exact ⟨_, _, last, recorded.bind (.pure _ last), inRange⟩
    | sort =>
      refine ⟨_, _, last, recorded.bind (.pure _ last), ?_⟩
      intro roll member
      exact inRange roll ((sortByTotal_perm rolls).mem_iff.mp member)
    | sum =>
      cases sum : sumOfTotals? rolls with
      | none =>
        refine ⟨draws ++ [], .error .sumOverflow, last, recorded.bind ?_, .inr ⟨rfl, rfl, ?_⟩⟩
        · simp only [sum]
          exact .throw _ last
        · rw [List.append_nil]
          exact sumOfTotals?_endless sounds sum
      | some total =>
        refine ⟨draws ++ [], .ok { expression := r.text, rolls := rolls, sum := some total }, last,
          recorded.bind ?_, inRange⟩
        simp only [sum]
        exact .pure _ last

end Repetition

theorem Roller.endless_explosions {σ : Type} [Source σ] {cap : ℕ} (many : 10 ^ 1000000 ≤ cap)
    {s : σ} (fair : Fair s) :
    ∃ roller last, ofText "(1d10ie1)^+1" { maxExplosions := cap } = .ok roller ∧
      roller.command.body.expression.decimals = [] ∧
      (roller.roll : Rolling σ Result).run s = (.error .sumOverflow, last) := by
  let limits : Limits := { maxExplosions := cap }
  let t : DiceTerm := ⟨1, some 10, [⟨.explodeAll, some 1⟩], none, "1d10ie1"⟩
  let r : Repetition := ⟨.dice t, 1, .sum, "1d10ie1"⟩
  have parsed : Command.parse "(1d10ie1)^+1" limits =
      .ok ⟨.repeated r, none, "(1d10ie1)^+1"⟩ := by cbv
  have wellFormed : t.WellFormed limits := Command.expression_wellFormed parsed
  obtain ⟨dice, last, ran, total⟩ := DiceTerm.exploding_total wellFormed rfl rfl fair
  let single : SingleResult := ⟨"1d10ie1", [.roll ⟨"1d10ie1", some 10, dice⟩],
    .value (.ofInt (diceTotal none dice)), none⟩
  have rolls : (rollTimes limits r.inner r.text r.times.toNat :
      Rolling σ (List SingleResult)).run s = (.ok [single], last) := by
    change (rollTimes limits (.dice t) "1d10ie1" 1 : Rolling σ (List SingleResult)).run s = _
    simp only [rollTimes, Expression.roll, Expression.evaluate, DiceTerm.roll, bind_assoc]
    rw [run_bind_of_ok ran]
    rfl
  have overflow : sumOfTotals? [single] = none := by
    apply sumOfTotals?_overflow (le_refl 0)
    change 10 ^ 1000000 ≤ |(Decimal.ofInt (diceTotal none dice)).toRat|
    rw [Decimal.toRat_ofInt]
    have points : (cap : ℚ) ≤ diceTotal none dice := by exact_mod_cast total
    have wide := (Nat.cast_le (α := ℚ)).mpr many
    rw [Nat.cast_pow, Nat.cast_ofNat] at wide
    exact (wide.trans points).trans (le_abs_self _)
  have summed := Repetition.roll_overflow rfl rolls overflow
  exact ⟨_, last, ofText_eq_ok.mpr ⟨_, parsed, rfl⟩, rfl, run_bind_of_error summed⟩

end DiceNotation
