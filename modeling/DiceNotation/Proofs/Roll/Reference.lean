import DiceNotation.Command.OfPhrase
import DiceNotation.Proofs.Decimal.Outcome
import DiceNotation.Proofs.Dice.Completion
import DiceNotation.Roll.Evaluation
import Mathlib

/-!
Evaluation computes with decimals what can be computed with exact numbers: a fold over numbers that
rounds each result to cents has the same value, as long as the numbers that it meets are below
10^23.
-/
namespace DiceNotation

/-- The fold of an expression over numbers, as far as it gets: there is no value if a divisor is
zero. What is met are the operands and the exact results on the way. -/
structure Reference where
  value : Option ℚ
  met : List ℚ

namespace Reference

def operate (op : Operator) (x y : ℚ) : Reference :=
  if op = .div ∧ y = 0 then ⟨none, []⟩
  else ⟨some (roundCents (op.exact x y)), [x, y, op.exact x y]⟩

def after (met : List ℚ) (r : Reference) : Reference := ⟨r.value, met ++ r.met⟩

def InRange (r : Reference) : Prop := ∀ x ∈ r.met, |x| < 10 ^ 23

theorem inRange_after {met : List ℚ} {r : Reference} :
    (r.after met).InRange ↔ (∀ x ∈ met, |x| < 10 ^ 23) ∧ r.InRange :=
  List.forall_mem_append

/-- How an evaluation ends that comes to the value of the fold, or stops where the fold does. -/
inductive Agrees : Reference → Except RollError Evaluation → Prop where
  | value {d : Decimal} {history : List HistoryItem} {successes : Bool} (placed : d.Placed)
      (met : List ℚ) : Agrees ⟨some d.toRat, met⟩ (.ok ⟨d, history, successes⟩)
  | stopped (met : List ℚ) : Agrees ⟨none, met⟩ (.error (.arithmetic .divisionByZero))

end Reference

def diceTotal (scoring : Option Scoring) (dice : List Die) : ℤ :=
  match scoring with
  | none => (liveValues dice).sum
  | some s => ((liveValues dice).map s.score).sum

theorem Total.amount_ofDice (scoring : Option Scoring) (dice : List Die) :
    (Total.ofDice scoring dice).amount = .ofInt (diceTotal scoring dice) := by
  cases scoring <;> rfl

theorem Decimal.placed_ofInt (n : Int) : (ofInt n).Placed := by
  constructor
  · change (-2 : Int) ≤ 0
    decide
  · exact Int.le_refl 0

theorem Operator.apply_operate (op : Operator) {a b : Decimal} (placedA : a.Placed)
    (placedB : b.Placed) (range : (Reference.operate op a.toRat b.toRat).InRange) :
    (∃ d, op.apply a b = .ok d ∧ d.Placed ∧
        (Reference.operate op a.toRat b.toRat).value = some d.toRat) ∨
      op.apply a b = .error .divisionByZero ∧
        (Reference.operate op a.toRat b.toRat).value = none := by
  unfold Reference.operate Reference.InRange at *
  by_cases zero : op = .div ∧ b.toRat = 0
  · rw [if_pos zero]
    obtain ⟨rfl, zero⟩ := zero
    exact .inr ⟨apply_zero zero, rfl⟩
  · rw [if_neg zero] at range ⊢
    simp only [List.forall_mem_cons] at range
    obtain ⟨smallA, _, small, _⟩ := range
    have divisor : op = .div → b.toRat ≠ 0 := by
      intro division zeroB
      exact zero ⟨division, zeroB⟩
    obtain ⟨d, applied, placed, value⟩ :=
      op.apply_rounds placedA placedB smallA divisor small
    exact .inl ⟨d, applied, placed, by rw [value]⟩

variable {σ : Type} [Source σ]

def Expression.reference (limits : Limits) : Expression → Rolling σ Reference
  | .dice term => do
      let dice ← term.rollDice limits
      return ⟨some (diceTotal term.scoring dice), []⟩
  | .integer value => return ⟨some value, []⟩
  | .float value => return ⟨some value.toRat, []⟩
  | .group inner => inner.reference limits
  | .binary op left right => do
      let l ← left.reference limits
      match l.value with
      | none => return l
      | some x =>
          let r ← right.reference limits
          match r.value with
          | none => return r.after l.met
          | some y => return (Reference.operate op x y).after (l.met ++ r.met)

/-- From a fair source the fold always has a result; if it stays in range, the evaluation agrees
with it and draws as many dice. -/
def Refines (m : Rolling σ Evaluation) (n : Rolling σ Reference) : Prop :=
  ∀ ⦃s : σ⦄, Fair s → ∃ r last, n.run s = (.ok r, last) ∧ Fair last ∧
    (r.InRange → ∃ result, m.run s = (result, last) ∧ r.Agrees result)

section Refinement

variable {limits : Limits}

theorem refines_dice {built : Limits} {t : DiceTerm} (h : t.WellFormed built) :
    Refines ((Expression.dice t).evaluate limits : Rolling σ Evaluation)
      ((Expression.dice t).reference limits) := by
  intro s fair
  obtain ⟨dice, last, rolled, fairLast⟩ := t.rollDice_finishes h limits fair
  refine ⟨_, last, run_bind_of_ok rolled, fairLast, fun _ => ?_⟩
  refine ⟨_, run_bind_of_ok (run_bind_of_ok rolled), ?_⟩
  have total := Decimal.toRat_ofInt (diceTotal t.scoring dice)
  have placed := Decimal.placed_ofInt (diceTotal t.scoring dice)
  rw [← Total.amount_ofDice] at total placed
  rw [← total]
  exact .value placed []

theorem refines_value {d : Decimal} (placed : d.Placed) (history : List HistoryItem) :
    Refines (pure ⟨d, history, false⟩ : Rolling σ Evaluation) (pure ⟨some d.toRat, []⟩) := by
  intro s fair
  exact ⟨_, s, rfl, fair, fun _ => ⟨_, rfl, .value placed []⟩⟩

theorem refines_group {inner : Expression}
    (h : Refines (inner.evaluate limits : Rolling σ Evaluation) (inner.reference limits)) :
    Refines ((Expression.group inner).evaluate limits : Rolling σ Evaluation)
      ((Expression.group inner).reference limits) := by
  intro s fair
  obtain ⟨r, last, folded, fairLast, agrees⟩ := h fair
  refine ⟨r, last, folded, fairLast, fun range => ?_⟩
  obtain ⟨result, ran, same⟩ := agrees range
  cases same with
  | value placed met => exact ⟨_, run_bind_of_ok ran, .value placed met⟩
  | stopped met => exact ⟨_, run_bind_of_error ran, .stopped met⟩

theorem refines_binary (op : Operator) {left right : Expression}
    (hl : Refines (left.evaluate limits : Rolling σ Evaluation) (left.reference limits))
    (hr : Refines (right.evaluate limits : Rolling σ Evaluation) (right.reference limits)) :
    Refines ((Expression.binary op left right).evaluate limits : Rolling σ Evaluation)
      ((Expression.binary op left right).reference limits) := by
  intro s fair
  obtain ⟨⟨x, metL⟩, middle, foldedL, fairMiddle, agreesL⟩ := hl fair
  unfold Expression.reference Expression.evaluate
  rw [run_bind_of_ok foldedL]
  cases x with
  | none =>
    refine ⟨_, middle, rfl, fairMiddle, fun range => ?_⟩
    obtain ⟨result, ran, same⟩ := agreesL range
    cases same
    exact ⟨_, run_bind_of_error ran, .stopped metL⟩
  | some x =>
    obtain ⟨⟨y, metR⟩, last, foldedR, fairLast, agreesR⟩ := hr fairMiddle
    dsimp only
    rw [run_bind_of_ok foldedR]
    cases y with
    | none =>
      refine ⟨_, last, rfl, fairLast, fun range => ?_⟩
      obtain ⟨rangeL, rangeR⟩ := Reference.inRange_after.mp range
      obtain ⟨resultL, ranL, sameL⟩ := agreesL rangeL
      obtain ⟨resultR, ranR, sameR⟩ := agreesR rangeR
      cases sameL
      cases sameR
      rw [run_bind_of_ok ranL, run_bind_of_error ranR]
      exact ⟨_, rfl, .stopped _⟩
    | some y =>
      refine ⟨_, last, rfl, fairLast, fun range => ?_⟩
      obtain ⟨rangeOperands, rangeHere⟩ := Reference.inRange_after.mp range
      obtain ⟨rangeL, rangeR⟩ := List.forall_mem_append.mp rangeOperands
      obtain ⟨resultL, ranL, sameL⟩ := agreesL rangeL
      obtain ⟨resultR, ranR, sameR⟩ := agreesR rangeR
      cases sameL with
      | value placedL =>
        cases sameR with
        | value placedR =>
          rw [run_bind_of_ok ranL, run_bind_of_ok ranR]
          unfold combine Reference.after
          rcases op.apply_operate placedL placedR rangeHere with
            ⟨d, applied, placed, value⟩ | ⟨applied, value⟩
          · rw [applied, value]
            exact ⟨_, rfl, .value placed _⟩
          · rw [applied, value]
            exact ⟨_, rfl, .stopped _⟩

/-- The limits of the roll need not be those of the build. -/
theorem Expression.evaluate_refines {built : Limits} {e : Expression} (h : e.WellFormed built)
    (limits : Limits) :
    Refines (e.evaluate limits : Rolling σ Evaluation) (e.reference limits) := by
  induction e with
  | dice term => exact refines_dice h
  | integer value =>
    have whole := refines_value (σ := σ) (Decimal.placed_ofInt value) [.value (.ofInt value)]
    rw [Decimal.toRat_ofInt] at whole
    exact whole
  | float value =>
    have placed : value.Placed := by
      rcases h with tenths | hundredths
      · exact ⟨by omega, by omega⟩
      · exact ⟨by omega, by omega⟩
    exact refines_value placed [.value value]
  | group inner ih => exact refines_group (ih h)
  | binary op left right ihLeft ihRight => exact refines_binary op (ihLeft h.1) (ihRight h.2.1)

end Refinement

def Expression.parts : Expression → List Expression
  | .group inner => .group inner :: inner.parts
  | .binary op left right => .binary op left right :: (left.parts ++ right.parts)
  | e => [e]

def Body.expression : Body → Expression
  | once e => e
  | repeated r => r.inner

theorem Expression.wellFormed_of_mem_parts {limits : Limits} {e part : Expression}
    (h : e.WellFormed limits) (member : part ∈ e.parts) : part.WellFormed limits := by
  induction e with
  | dice term | integer value | float value =>
    rw [List.mem_singleton.mp member]
    exact h
  | group inner ih =>
    rcases List.mem_cons.mp member with rfl | inside
    · exact h
    · exact ih h inside
  | binary op left right ihLeft ihRight =>
    rcases List.mem_cons.mp member with rfl | inside
    · exact h
    · rcases List.mem_append.mp inside with inLeft | inRight
      · exact ihLeft h.1 inLeft
      · exact ihRight h.2.1 inRight

theorem Command.expression_wellFormed {text : String} {limits : Limits} {command : Command}
    (parsed : Command.parse text limits = .ok command) :
    command.body.expression.WellFormed limits := by
  have body := (Command.parse_wellFormed parsed).body
  cases eq : command.body with
  | once e =>
    rw [eq] at body
    exact body
  | repeated r =>
    rw [eq] at body
    exact body.1

/-- An expression of a command, rolled on a fair source, has the value of the fold over exact
numbers if the fold stays in range, and stops at a divisor that is zero where the fold stops. -/
theorem Command.evaluate_exact {text : String} {built : Limits} {command : Command}
    (parsed : Command.parse text built = .ok command) {e : Expression}
    (part : e ∈ command.body.expression.parts) (limits : Limits) {s : σ} (fair : Fair s) :
    ∃ r last, (e.reference limits : Rolling σ Reference).run s = (.ok r, last) ∧
      ((∀ x ∈ r.met, |x| < 10 ^ 23) →
        match r.value with
        | some q => ∃ evaluation, (e.evaluate limits : Rolling σ Evaluation).run s =
            (.ok evaluation, last) ∧ evaluation.value.toRat = q
        | none => (e.evaluate limits : Rolling σ Evaluation).run s =
            (.error (.arithmetic .divisionByZero), last)) := by
  have body := (Command.parse_wellFormed parsed).body
  have whole : command.body.expression.WellFormed built := by
    cases eq : command.body with
    | once e =>
      rw [eq] at body
      exact body
    | repeated r =>
      rw [eq] at body
      exact body.1
  have wellFormed := Expression.wellFormed_of_mem_parts whole part
  obtain ⟨r, last, folded, _, agrees⟩ := Expression.evaluate_refines wellFormed limits fair
  refine ⟨r, last, folded, fun range => ?_⟩
  obtain ⟨result, ran, same⟩ := agrees range
  cases same with
  | value placed met => exact ⟨_, ran, rfl⟩
  | stopped met => exact ran

theorem third_of_die_exact :
    ∃ (command : Command) (evaluation : Evaluation) (last : Congruential),
      Command.parse "1d6/3" {} = .ok command ∧
      (command.body.expression.evaluate {} : Rolling Congruential Evaluation).run (.ofSeed 2) =
        (.ok evaluation, last) ∧
      evaluation.value.toRat = 133 / 100 := by
  obtain ⟨e, shown⟩ : ∃ e : Expression, e = .binary .div
    (.dice ⟨1, some 6, [], none, "1d6"⟩) (.integer 3) := ⟨_, rfl⟩
  have parsed : Command.parse "1d6/3" {} = .ok ⟨.once e, none, "1d6/3"⟩ := by
    rw [shown]
    cbv
  have part : e ∈ (Body.once e).expression.parts := by
    rw [shown]
    exact List.mem_cons_self
  obtain ⟨r, last, folded, agrees⟩ := Command.evaluate_exact parsed part {}
    (Congruential.fair (.ofSeed 2))
  have dice : (DiceTerm.rollDice {} ⟨1, some 6, [], none, "1d6"⟩ :
      Rolling Congruential (List Die)).run (.ofSeed 2) =
        (.ok [{ value := 4 }], ⟨59559187, [6]⟩) := by cbv
  have computed : (e.reference {} : Rolling Congruential Reference).run (.ofSeed 2) =
      (.ok ⟨some (roundCents ((4 : ℤ) / (3 : ℤ))), [(4 : ℤ), (3 : ℤ), (4 : ℤ) / (3 : ℤ)]⟩,
        ⟨59559187, [6]⟩) := by
    have operated : Reference.operate .div ((4 : ℤ) : ℚ) ((3 : ℤ) : ℚ) =
        ⟨some (roundCents ((4 : ℤ) / (3 : ℤ))), [(4 : ℤ), (3 : ℤ), (4 : ℤ) / (3 : ℤ)]⟩ := by
      simp [Reference.operate, Operator.exact]
    have rolled : ((Expression.dice ⟨1, some 6, [], none, "1d6"⟩).reference {} :
        Rolling Congruential Reference).run (.ofSeed 2) =
          (.ok ⟨some (4 : ℤ), []⟩, ⟨59559187, [6]⟩) := run_bind_of_ok dice
    rw [shown, ← operated]
    unfold Expression.reference
    rw [run_bind_of_ok rolled]
    rfl
  rw [computed] at folded
  cases folded
  obtain ⟨evaluation, ran, value⟩ := agrees (by norm_num)
  refine ⟨_, evaluation, _, parsed, ran, ?_⟩
  rw [value]
  have floor : ⌊(803 : ℚ) / 6⌋ = 133 := by
    rw [Int.floor_eq_iff]
    norm_num
  norm_num [roundCents, halfUp, floor]

end DiceNotation
