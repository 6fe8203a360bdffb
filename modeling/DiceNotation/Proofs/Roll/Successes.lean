import DiceNotation.Proofs.Roll.Safety

/-!
What a total of successes counts. Sums and differences of scored dice terms count successes, and
nothing else does; such a total is the exact sum of what the terms count, each with its sign.
-/
namespace DiceNotation

theorem Decimal.truncate_of_whole {d : Decimal} {n : ℤ} (whole : d.toRat = n) :
    d.truncate = n := by
  have size : d.magnitude = n.natAbs := by
    rw [← d.abs_toRat, whole, Nat.cast_natAbs, Int.cast_abs]
  have quotient : scaleUp d.coefficient d.exponent.toNat / Nat.pow 10 (-d.exponent).toNat =
      n.natAbs := by
    have base : (10 : ℚ) ^ (-d.exponent).toNat ≠ 0 := by positivity
    have units := size
    rw [magnitude, ← Context.pow_toNat_ratio, ← mul_div_assoc, div_eq_iff base] at units
    have scaled : d.coefficient * 10 ^ d.exponent.toNat =
        n.natAbs * 10 ^ (-d.exponent).toNat := by exact_mod_cast units
    rw [scaleUp_eq, Nat.pow_eq, scaled]
    exact Nat.mul_div_cancel _ (by positivity)
  rw [d.toRat_eq, size] at whole
  have signed : (if d.negative then -(n.natAbs : ℤ) else n.natAbs) = n := by
    apply Int.cast_injective (α := ℚ)
    rw [← whole]
    split
    · rw [Int.cast_neg, Int.cast_natCast]
    · rw [Int.cast_natCast]
  unfold truncate
  rw [quotient]
  exact signed

theorem significant_of_whole {n : ℤ} (small : |(n : ℚ)| < 10 ^ 28) : significant n = n := by
  have short : (Decimal.ofInt n).digits ≤ 28 := by
    rw [Decimal.digits, digitCount_le_iff (by decide)]
    have less : |n| < 10 ^ 28 := by exact_mod_cast small
    change n.natAbs < 10 ^ 28
    zify
    exact less
  have kept := Decimal.significant_of_digits short
  rwa [Decimal.toRat_ofInt] at kept

theorem roundCents_of_whole (n : ℤ) : roundCents n = n := by
  have cents := roundCents_of_cents (n * 100)
  push_cast at cents
  rwa [mul_one_div, mul_div_cancel_right₀ _ (by norm_num)] at cents

theorem Operator.apply_whole {op : Operator} {a b d : Decimal} (placesA : -2 ≤ a.exponent)
    (placesB : -2 ≤ b.exponent) {n : ℤ} (whole : op.exact a.toRat b.toRat = n)
    (applied : op.apply a b = .ok d) : d.toRat = n := by
  obtain ⟨failure, result, _⟩ := op.apply_outcome placesA placesB
  rw [whole] at failure result
  have room : |(n : ℚ)| < 10 ^ 28 := by
    by_contra long
    obtain ⟨e, failed⟩ := failure.mpr (.inr (by linarith))
    rw [applied] at failed
    cases failed
  rw [(result d applied).1, significant_of_whole room, roundCents_of_whole]

namespace Scoring

def doubles (s : Scoring) (value : Int) : Bool := s.doubleTarget.any (· ≤ value)

def meets (s : Scoring) (value : Int) : Bool :=
  match s.targetValues with
  | some values => value ∈ values
  | none => s.target.any (· ≤ value)

theorem meets_iff {s : Scoring} (exclusive : s.target = none ∨ s.targetValues = none)
    (value : Int) : s.meets value = true ↔
      (∃ target, s.target = some target ∧ target ≤ value) ∨
        ∃ values, s.targetValues = some values ∧ value ∈ values := by
  unfold meets
  cases exclusive with
  | inl untargeted =>
    cases s.targetValues with
    | none => simp [untargeted]
    | some values => simp [untargeted]
  | inr unlisted => simp [unlisted, Option.any_eq_true]

/-- Two for each value at the double target and one for each other one that meets the target, less
one for each failure. -/
def points (s : Scoring) (values : List Int) : Int :=
  2 * values.countP s.doubles + values.countP (fun v => s.meets v && !s.doubles v) -
    values.countP s.fails

theorem score_eq (s : Scoring) (value : Int) : s.score value =
    2 * (if s.doubles value then 1 else 0) +
      (if s.meets value && !s.doubles value then 1 else 0) - if s.fails value then 1 else 0 := by
  unfold score successes doubles meets
  cases s.doubleTarget.any (· ≤ value) with
  | true => simp
  | false => cases s.targetValues <;> simp

theorem sum_score (s : Scoring) (values : List Int) :
    (values.map s.score).sum = s.points values := by
  unfold points
  induction values with
  | nil => rfl
  | cons v values ih =>
    rw [List.map_cons, List.sum_cons, ih, s.score_eq, List.countP_cons, List.countP_cons,
      List.countP_cons]
    push_cast
    ring

theorem abs_points_le (s : Scoring) (values : List Int) :
    |s.points values| ≤ 2 * values.length := by
  rw [← s.sum_score]
  have bound : ∀ v ∈ values.map s.score, |v| ≤ 2 := by
    intro v member
    obtain ⟨value, _, rfl⟩ := List.mem_map.mp member
    exact s.abs_score_le value
  have sum := abs_sum_le bound
  rw [List.length_map] at sum
  linarith

end Scoring

def DiceTerm.points (t : DiceTerm) (dice : List Die) : Int :=
  t.scoring.elim 0 fun s => s.points (liveValues dice)

/-- A dice term in an expression, and how many right operands of a subtraction it lies in. -/
structure Occurrence where
  term : DiceTerm
  depth : Nat

def Occurrence.behind (op : Operator) (o : Occurrence) : Occurrence :=
  { o with depth := if op = .sub then o.depth + 1 else o.depth }

def Occurrence.points (o : Occurrence) (rolled : RolledTerm) : Int :=
  (-1) ^ o.depth * o.term.points rolled.dice

def Expression.occurrences : Expression → List Occurrence
  | .dice term => [⟨term, 0⟩]
  | .integer _ => []
  | .float _ => []
  | .group inner => inner.occurrences
  | .binary op left right => left.occurrences ++ right.occurrences.map (.behind op)

def signedPoints (occurrences : List Occurrence) (rolled : List RolledTerm) : Int :=
  (List.zipWith Occurrence.points occurrences rolled).sum

theorem signedPoints_cons (o : Occurrence) (occurrences : List Occurrence) (r : RolledTerm)
    (rolled : List RolledTerm) :
    signedPoints (o :: occurrences) (r :: rolled) =
      o.points r + signedPoints occurrences rolled := by
  rw [signedPoints, List.zipWith_cons_cons, List.sum_cons]
  rfl

theorem signedPoints_append {first second : List Occurrence} {rolled more : List RolledTerm}
    (same : first.length = rolled.length) :
    signedPoints (first ++ second) (rolled ++ more) =
      signedPoints first rolled + signedPoints second more := by
  rw [signedPoints, List.zipWith_append same, List.sum_append]
  rfl

theorem Occurrence.points_behind (op : Operator) (o : Occurrence) (rolled : RolledTerm) :
    (o.behind op).points rolled = if op = .sub then -o.points rolled else o.points rolled := by
  unfold points behind
  split
  · rw [pow_succ]
    ring
  · rfl

theorem signedPoints_behind (op : Operator) (occurrences : List Occurrence)
    (rolled : List RolledTerm) : signedPoints (occurrences.map (.behind op)) rolled =
      if op = .sub then -signedPoints occurrences rolled else signedPoints occurrences rolled := by
  induction occurrences generalizing rolled with
  | nil => simp [signedPoints]
  | cons o occurrences ih =>
    cases rolled with
    | nil => simp [signedPoints]
    | cons r rolled =>
      rw [List.map_cons, signedPoints_cons, signedPoints_cons, ih, o.points_behind]
      split
      · rw [neg_add]
      · rfl

theorem Expression.occurrences_terms (e : Expression) :
    e.occurrences.map Occurrence.term = e.diceTerms := by
  induction e with
  | dice term => rfl
  | integer value => rfl
  | float value => rfl
  | group inner ih => exact ih
  | binary op left right ihLeft ihRight =>
    have kept : Occurrence.term ∘ Occurrence.behind op = Occurrence.term := rfl
    rw [occurrences, diceTerms, List.map_append, List.map_map, kept, ihLeft, ihRight]

theorem Occurrence.abs_points_le (o : Occurrence) (rolled : RolledTerm) :
    |o.points rolled| ≤ 2 * liveCount rolled.dice := by
  rw [points, abs_mul, abs_neg_one_pow, one_mul, DiceTerm.points]
  cases o.term.scoring with
  | none => simp
  | some s =>
    rw [← length_liveValues]
    exact s.abs_points_le (liveValues rolled.dice)

theorem abs_signedPoints_le {occurrences : List Occurrence} {rolled : List RolledTerm}
    (same : occurrences.length = rolled.length) :
    |signedPoints occurrences rolled| ≤ 2 * (rolled.map fun r => (liveCount r.dice : ℤ)).sum := by
  induction occurrences generalizing rolled with
  | nil =>
    obtain rfl := List.length_eq_zero_iff.mp same.symm
    rfl
  | cons o occurrences ih =>
    cases rolled with
    | nil => cases same
    | cons r rolled =>
      have triangle := abs_add_le (o.points r) (signedPoints occurrences rolled)
      have here := o.abs_points_le r
      have rest := ih (Nat.succ.inj same)
      rw [signedPoints_cons, List.map_cons, List.sum_cons]
      linarith

def Expression.leaves : Expression → List Expression
  | .group inner => inner.leaves
  | .binary _ left right => left.leaves ++ right.leaves
  | leaf => [leaf]

def Expression.operators : Expression → List Operator
  | .group inner => inner.operators
  | .binary op left right => op :: (left.operators ++ right.operators)
  | _ => []

/-- All leaves are dice terms that are scored, and all operators are sums and differences. -/
structure Expression.CountsSuccesses (e : Expression) : Prop where
  scored : ∀ leaf ∈ e.leaves, ∃ t scoring, leaf = .dice t ∧ t.scoring = some scoring
  sums : ∀ op ∈ e.operators, op = .add ∨ op = .sub

namespace Expression

theorem countsSuccesses_dice {t : DiceTerm} :
    (dice t).CountsSuccesses ↔ t.scoring.isSome = true := by
  constructor
  · intro h
    obtain ⟨_, scoring, same, scored⟩ := h.scored (dice t) List.mem_cons_self
    cases same
    rw [scored, Option.isSome_some]
  · intro some
    obtain ⟨scoring, scored⟩ := Option.isSome_iff_exists.mp some
    constructor
    · intro leaf member
      exact ⟨t, scoring, List.mem_singleton.mp member, scored⟩
    · exact nofun

theorem countsSuccesses_binary {op : Operator} {left right : Expression} :
    (binary op left right).CountsSuccesses ↔
      (left.CountsSuccesses ∧ right.CountsSuccesses) ∧ op.keepsSuccesses = true := by
  have keeps : op.keepsSuccesses = true ↔ op = .add ∨ op = .sub := by
    cases op <;> simp [Operator.keepsSuccesses]
  rw [keeps]
  constructor
  · intro h
    obtain ⟨scored, sums⟩ := h
    obtain ⟨scoredLeft, scoredRight⟩ := List.forall_mem_append.mp scored
    obtain ⟨here, inside⟩ := List.forall_mem_cons.mp sums
    obtain ⟨sumsLeft, sumsRight⟩ := List.forall_mem_append.mp inside
    exact ⟨⟨⟨scoredLeft, sumsLeft⟩, ⟨scoredRight, sumsRight⟩⟩, here⟩
  · intro h
    obtain ⟨⟨left, right⟩, here⟩ := h
    constructor
    · exact List.forall_mem_append.mpr ⟨left.scored, right.scored⟩
    · exact List.forall_mem_cons.mpr
        ⟨here, List.forall_mem_append.mpr ⟨left.sums, right.sums⟩⟩

theorem not_countsSuccesses_integer (value : Int) : ¬ (integer value).CountsSuccesses := by
  intro h
  obtain ⟨_, _, same, _⟩ := h.scored (integer value) List.mem_cons_self
  cases same

theorem not_countsSuccesses_float (value : Decimal) : ¬ (float value).CountsSuccesses := by
  intro h
  obtain ⟨_, _, same, _⟩ := h.scored (float value) List.mem_cons_self
  cases same

end Expression

variable {σ : Type} [Source σ]

section Evaluation

variable (limits : Limits)

theorem DiceTerm.roll_yields (t : DiceTerm) :
    Yields (t.roll limits : Rolling σ (RolledTerm × Total)) fun result =>
      result.1.expression = t.text ∧ result.1.sides = t.sides ∧
        result.2 = .ofDice t.scoring result.1.dice := by
  apply Yields.bind (P := fun _ => True) ⟨fun _ => trivial⟩
  intro dice _
  exact .pure ⟨rfl, rfl, rfl⟩

omit [Source σ] in
theorem combine_yields (op : Operator) (left right : Decimal) :
    Yields (combine op left right : Rolling σ Decimal) fun d => op.apply left right = .ok d :=
  ⟨fun ran => (combine_eq_ok ran).1⟩

/-- A property that the histories of rolls and of literals have, and that histories inherit from
their parts. -/
structure Inherited (built : Limits) (P : List HistoryItem → Prop) : Prop where
  roll : ∀ t : DiceTerm, t.WellFormed built →
    Yields (t.roll limits : Rolling σ (RolledTerm × Total)) fun result => P [.roll result.1]
  value : ∀ d : Decimal, d.Placed → P [.value d]
  group : ∀ history, P history → P (.paren .opening :: history ++ [.paren .closing])
  binary : ∀ op history behind, P history → P behind → P (history ++ .operator op :: behind)

theorem Inherited.evaluate {built : Limits} {P : List HistoryItem → Prop}
    (inherited : Inherited (σ := σ) limits built P) {e : Expression} (h : e.WellFormed built) :
    Yields (e.evaluate limits : Rolling σ Evaluation) fun evaluation => P evaluation.history := by
  induction e with
  | dice t =>
    apply (inherited.roll t h).bind
    intro result rolled
    exact .pure rolled
  | integer value => exact .pure (inherited.value _ (Decimal.placed_ofInt value))
  | float value =>
    have places : value.exponent = -1 ∨ value.exponent = -2 := h
    exact .pure (inherited.value value ⟨by omega, by omega⟩)
  | group inner ih =>
    apply (ih h).bind
    intro evaluation known
    exact .pure (inherited.group _ known)
  | binary op left right ih ihRight =>
    apply (ih h.1).bind
    intro l known
    apply (ihRight h.2.1).bind
    intro r knownRight
    apply (combine_yields op l.value r.value).bind
    intro d _
    exact .pure (inherited.binary op _ _ known knownRight)

/-- Whether an evaluation counts successes does not depend on what is rolled. -/
theorem Expression.evaluate_successes (e : Expression) :
    Yields (e.evaluate limits : Rolling σ Evaluation) fun evaluation =>
      evaluation.successes = true ↔ e.CountsSuccesses := by
  induction e with
  | dice t =>
    apply (t.roll_yields limits).bind
    intro result known
    apply Yields.pure
    rw [known.2.2, countsSuccesses_dice]
    cases t.scoring <;> simp [Total.ofDice, Total.isSuccess]
  | integer value =>
    apply Yields.pure
    simp only [Bool.false_eq_true, not_countsSuccesses_integer]
  | float value =>
    apply Yields.pure
    simp only [Bool.false_eq_true, not_countsSuccesses_float]
  | group inner ih =>
    apply ih.bind
    intro evaluation known
    apply Yields.pure
    exact known.trans ⟨fun h => ⟨h.scored, h.sums⟩, fun h => ⟨h.scored, h.sums⟩⟩
  | binary op left right ihLeft ihRight =>
    apply ihLeft.bind
    intro l knownLeft
    apply ihRight.bind
    intro r knownRight
    apply (combine_yields op l.value r.value).bind
    intro d _
    apply Yields.pure
    rw [countsSuccesses_binary, ← knownLeft, ← knownRight, Bool.and_eq_true, Bool.and_eq_true]

/-- An evaluation that counts successes: its history has a roll for each of the dice terms, and its
value is exactly the sum of their points. -/
structure Expression.Counted (e : Expression) (evaluation : Evaluation) : Prop where
  terms : (rolledTerms evaluation.history).map (fun r => (r.expression, r.sides)) =
    e.diceTerms.map fun t => (t.text, t.sides)
  value : evaluation.value.toRat = signedPoints e.occurrences (rolledTerms evaluation.history)
  places : -2 ≤ evaluation.value.exponent

theorem Expression.Counted.length {e : Expression} {evaluation : Evaluation}
    (h : e.Counted evaluation) :
    e.occurrences.length = (rolledTerms evaluation.history).length := by
  have terms := congrArg List.length h.terms
  rw [← e.occurrences_terms] at terms
  simpa using terms.symm

theorem DiceTerm.counted {t : DiceTerm} {scoring : Scoring} (scored : t.scoring = some scoring)
    {rolled : RolledTerm} (text : rolled.expression = t.text) (sides : rolled.sides = t.sides)
    (successes : Bool) : (Expression.dice t).Counted
      ⟨(Total.ofDice t.scoring rolled.dice).amount, [.roll rolled], successes⟩ := by
  constructor
  · simp [rolledTerms, Expression.diceTerms, text, sides]
  · have sum : diceTotal t.scoring rolled.dice = t.points rolled.dice := by
      unfold diceTotal points
      rw [scored]
      exact scoring.sum_score (liveValues rolled.dice)
    rw [Total.amount_ofDice, Decimal.toRat_ofInt, sum]
    simp [rolledTerms, Expression.occurrences, signedPoints, Occurrence.points]
  · rw [Total.amount_ofDice]
    exact (Decimal.placed_ofInt _).1

theorem Expression.Counted.binary {op : Operator} (sums : op = .add ∨ op = .sub)
    {left right : Expression} {l r : Evaluation} (hl : left.Counted l) (hr : right.Counted r)
    {d : Decimal} (applied : op.apply l.value r.value = .ok d) (successes : Bool) :
    (Expression.binary op left right).Counted
      ⟨d, l.history ++ .operator op :: r.history, successes⟩ := by
  have terms : rolledTerms (l.history ++ .operator op :: r.history) =
      rolledTerms l.history ++ rolledTerms r.history := rolledTerms_append _ _
  constructor
  · rw [terms, List.map_append, hl.terms, hr.terms, diceTerms, List.map_append]
  · rw [terms, occurrences, signedPoints_append hl.length, signedPoints_behind]
    apply Operator.apply_whole hl.places hr.places _ applied
    rw [hl.value, hr.value]
    rcases sums with rfl | rfl
    · simp [Operator.exact]
    · simp [Operator.exact, sub_eq_add_neg]
  · exact (Operator.apply_placed applied).1.1

theorem Expression.evaluate_counted {e : Expression} (counts : e.CountsSuccesses) :
    Yields (e.evaluate limits : Rolling σ Evaluation) e.Counted := by
  induction e with
  | dice t =>
    obtain ⟨scoring, scored⟩ := Option.isSome_iff_exists.mp (countsSuccesses_dice.mp counts)
    apply (t.roll_yields limits).bind
    intro result known
    apply Yields.pure
    rw [known.2.2]
    exact DiceTerm.counted scored known.1 known.2.1 _
  | integer value => exact absurd counts (not_countsSuccesses_integer value)
  | float value => exact absurd counts (not_countsSuccesses_float value)
  | group inner ih =>
    apply (ih ⟨counts.scored, counts.sums⟩).bind
    intro evaluation counted
    apply Yields.pure
    have inside : rolledTerms (.paren .opening :: evaluation.history ++ [.paren .closing]) =
        rolledTerms evaluation.history := by simp [rolledTerms]
    constructor
    · rw [inside]
      exact counted.terms
    · rw [inside]
      exact counted.value
    · exact counted.places
  | binary op left right ihLeft ihRight =>
    obtain ⟨⟨countsLeft, countsRight⟩, _⟩ := countsSuccesses_binary.mp counts
    have sums := counts.sums op List.mem_cons_self
    apply (ihLeft countsLeft).bind
    intro l countedLeft
    apply (ihRight countsRight).bind
    intro r countedRight
    apply (combine_yields op l.value r.value).bind
    intro d applied
    exact .pure (countedLeft.binary sums countedRight applied _)

end Evaluation

/-- A total counts successes if and only if the leaves are scored dice terms and the operators are
sums and differences. Then it is exactly the sum of the points of the live dice, where the terms in
an odd number of right operands of a subtraction are subtracted, and no die adds or takes away more
than two. A sum that is too long for the precision would have been an error. -/
theorem Expression.success_total_exact {e : Expression} {limits : Limits} {text : String}
    {s last : σ} {result : SingleResult}
    (ran : (e.roll limits text : Rolling σ SingleResult).run s = (.ok result, last)) :
    (result.total.isSuccess = true ↔ e.CountsSuccesses) ∧
    (e.CountsSuccesses →
      (rolledTerms result.history).map (fun r => (r.expression, r.sides)) =
        e.diceTerms.map (fun t => (t.text, t.sides)) ∧
      result.total = .success (signedPoints e.occurrences (rolledTerms result.history)) ∧
      |signedPoints e.occurrences (rolledTerms result.history)| ≤
        2 * ((rolledTerms result.history).map fun r => (liveCount r.dice : ℤ)).sum) := by
  obtain ⟨evaluation, now, evaluated, packed⟩ := run_bind_eq_ok ran
  obtain ⟨rfl, _⟩ := run_pure_eq_ok packed
  have flag := (e.evaluate_successes limits).result evaluated
  constructor
  · rw [← flag]
    cases successes : evaluation.successes <;> simp [Evaluation.total, Total.isSuccess, successes]
  · intro counts
    have counted := (e.evaluate_counted limits counts).result evaluated
    refine ⟨counted.terms, ?_, abs_signedPoints_le counted.length⟩
    dsimp only
    rw [Evaluation.total, if_pos (flag.mpr counts), Decimal.truncate_of_whole counted.value]

/-- Two successes and a double one less a failure; the last term is subtracted twice. -/
theorem nested_difference_counted :
    ∃ (e : Expression) (result : SingleResult) (last : Script),
      (e.roll {} "4d10t8dt10f1 - (2d6t5 - 1d6t6)").run
          (Script.ofList [10, 8, 1, 9, 6, 5, 6] false) = (.ok result, last) ∧
      e.occurrences.map Occurrence.depth = [0, 1, 2] ∧ result.total = .success 2 ∧
      e.CountsSuccesses ∧
      signedPoints e.occurrences (rolledTerms result.history) = 3 - 2 + 1 ∧
      result.total = .success (signedPoints e.occurrences (rolledTerms result.history)) := by
  obtain ⟨e, shown⟩ : ∃ e : Expression, e = .binary .sub
    (.dice ⟨4, some 10, [], some ⟨some 8, none, some 10, some 1⟩, "4d10t8dt10f1"⟩)
    (.group (.binary .sub (.dice ⟨2, some 6, [], some ⟨some 5, none, none, none⟩, "2d6t5"⟩)
      (.dice ⟨1, some 6, [], some ⟨some 6, none, none, none⟩, "1d6t6"⟩))) := ⟨_, rfl⟩
  obtain ⟨result, rolled⟩ : ∃ result : SingleResult, result =
    ⟨"4d10t8dt10f1 - (2d6t5 - 1d6t6)", [.roll ⟨"4d10t8dt10f1", some 10,
      [{ value := 10, extreme := .highest }, { value := 8 }, { value := 1, extreme := .lowest },
       { value := 9 }]⟩, .operator .sub, .paren .opening, .roll ⟨"2d6t5", some 6,
      [{ value := 6, extreme := .highest }, { value := 5 }]⟩, .operator .sub, .roll ⟨"1d6t6",
      some 6, [{ value := 6, extreme := .highest }]⟩, .paren .closing], .success 2, none⟩ :=
    ⟨_, rfl⟩
  have ran : (e.roll {} "4d10t8dt10f1 - (2d6t5 - 1d6t6)" : Rolling Script SingleResult).run
      (Script.ofList [10, 8, 1, 9, 6, 5, 6] false) =
        (.ok result, ⟨[10, 8, 1, 9, 6, 5, 6], [], false, 7⟩) := by
    rw [shown, rolled]
    cbv
  obtain ⟨flag, counted⟩ := Expression.success_total_exact ran
  have success : result.total.isSuccess = true := by rw [rolled]; rfl
  have counts := flag.mp success
  refine ⟨e, result, _, ran, ?_, ?_, counts, ?_, (counted counts).2.1⟩
  · rw [shown]
    rfl
  · rw [rolled]
  · rw [shown, rolled]
    decide

end DiceNotation
