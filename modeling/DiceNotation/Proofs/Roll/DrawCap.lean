import DiceNotation.Proofs.Dice.DrawCap
import DiceNotation.Roll.Roller

/-!
How many dice a command draws. An expression draws no more than its terms may draw, and a repetition
draws no more than that as often as it is repeated, whether or not the roll comes to a result.
-/
namespace DiceNotation

variable {σ : Type} [Source σ]

def Expression.drawCap (limits : Limits) (e : Expression) : Nat :=
  (e.diceTerms.map (DiceTerm.drawCap limits)).sum

def Body.times : Body → Nat
  | once _ => 1
  | repeated r => r.times.toNat

theorem Expression.drawCap_binary (limits : Limits) (op : Operator) (left right : Expression) :
    (binary op left right).drawCap limits = right.drawCap limits + left.drawCap limits := by
  rw [drawCap, diceTerms, List.map_append, List.sum_append, Nat.add_comm]
  rfl

omit [Source σ] in
theorem combine_costs (op : Operator) (left right : Decimal) :
    Costs 0 (combine op left right : Rolling σ Decimal) (combine op left right) := by
  unfold combine
  split
  · exact .pure _
  · exact .throw _

section Costs

variable (limits : Limits)

theorem Expression.evaluate_costs (e : Expression) :
    Costs (e.drawCap limits) (e.evaluate limits : Rolling σ Evaluation) (e.evaluate limits) := by
  induction e with
  | dice term => exact (term.roll_costs limits).finish fun result => .pure _
  | integer value => exact .pure _
  | float value => exact .pure _
  | group inner ih => exact ih.finish fun result => .pure _
  | binary op left right ihLeft ihRight =>
    rw [drawCap_binary]
    apply ihLeft.bind
    intro l
    apply ihRight.finish
    intro r
    exact (combine_costs op l.value r.value).finish fun value => .pure _

theorem Expression.roll_costs (e : Expression) (text : String) :
    Costs (e.drawCap limits) (e.roll limits text : Rolling σ SingleResult) (e.roll limits text) :=
  (e.evaluate_costs limits).finish fun _ => .pure _

theorem rollTimes_costs (e : Expression) (text : String) (n : Nat) :
    Costs (n * e.drawCap limits) (rollTimes limits e text n : Rolling σ (List SingleResult))
      (rollTimes limits e text n) := by
  induction n with
  | zero => exact .pure []
  | succ n ih =>
    rw [Nat.succ_mul]
    apply (e.roll_costs limits text).bind
    intro first
    exact ih.finish fun rest => .pure _

theorem Repetition.roll_costs (r : Repetition) :
    Costs (r.times.toNat * r.inner.drawCap limits) (r.roll limits : Rolling σ RepeatedResult)
      (r.roll limits) := by
  apply (rollTimes_costs limits r.inner r.text r.times.toNat).finish
  intro rolls
  cases r.mode with
  | plain => exact .pure _
  | sort => exact .pure _
  | sum =>
    dsimp only
    split
    · exact .throw _
    · exact .pure _

end Costs

theorem Roller.roll_costs (r : Roller) :
    Costs (r.command.body.times * (r.command.diceTerms.map (DiceTerm.drawCap r.limits)).sum)
      (r.roll : Rolling σ Result) r.roll := by
  unfold roll Command.diceTerms
  cases r.command.body with
  | once e =>
    rw [Body.times, Nat.one_mul]
    exact (e.roll_costs r.limits _).finish fun result => .pure _
  | repeated repetition => exact (repetition.roll_costs r.limits).finish fun result => .pure _

/-- On any source, which may fail at any draw, a term asks for a limited number of dice, and so do
its rerolls and its explosions. Thus every roll of a command comes to an end after as many draws as
its terms may make, each time that it is repeated. -/
theorem Roller.roll_draws_capped (s : σ) :
    (∀ (limits : Limits) (t : DiceTerm),
      DrawsAtMost (t.drawCap limits) (t.roll limits) (t.roll limits) s ∧
        ∃ initial rerolls explosions, t.Requests limits s initial rerolls explosions) ∧
    ∀ r : Roller, DrawsAtMost
      (r.command.body.times * (r.command.diceTerms.map (DiceTerm.drawCap r.limits)).sum)
      r.roll r.roll s := by
  constructor
  · intro limits t
    exact ⟨(t.roll_costs limits).drawsAtMost s, t.roll_requests limits s⟩
  · intro r
    exact r.roll_costs.drawsAtMost s

/-- One-sided dice reach the cap. -/
example : (requestsOf (DiceTerm.roll { maxRerolls := 2, maxExplosions := 3 }
    ⟨2, some 1, [⟨.explodeAll, none⟩, ⟨.reroll, some 1⟩, ⟨.explode, none⟩, ⟨.rerollAll, some 1⟩],
      none, "2d1ie r1 e ir1"⟩) AnySource.unseeded).length = 2 * (3 + 2) + 3 := by
  cbv

end DiceNotation
