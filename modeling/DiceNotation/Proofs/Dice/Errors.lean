import DiceNotation.Proofs.Dice.Chains

/-!
The errors of a dice term: the source has no answer, or a modifier has no value. Nothing that is
done to dice fails in arithmetic.
-/
namespace DiceNotation

variable {σ α β : Type}

def NeverArithmetic (m : Rolling σ α) : Prop :=
  ∀ (s : σ) (e : ArithmeticError) (last : σ), m.run s ≠ (.error (.arithmetic e), last)

namespace NeverArithmetic

theorem pure (a : α) : NeverArithmetic (Pure.pure a : Rolling σ α) := nofun

theorem missingValue (kind : ModifierKind) :
    NeverArithmetic (MonadExcept.throw (RollError.missingValue kind) : Rolling σ α) := nofun

theorem bind {m : Rolling σ α} {f : α → Rolling σ β} (h : NeverArithmetic m)
    (next : ∀ a, NeverArithmetic (f a)) : NeverArithmetic (m >>= f) := by
  intro s e last ran
  rcases run_bind_eq_error ran with first | ⟨a, now, _, later⟩
  · exact h s e last first
  · exact next a now e last later

variable [Source σ]

theorem of_settles {m : Rolling σ α} {Q : List Draw → α → Prop} (h : Settles m Q) :
    NeverArithmetic m := by
  intro s e last ran
  cases h.ending s with
  | result finished answers holds =>
    rw [finished] at ran
    cases ran
  | refused stopped answers refusal =>
    rw [stopped] at ran
    cases ran

variable (sides : Option Int)

theorem reroll (limit : Int) (m : Modifier) (dice : List Die) :
    NeverArithmetic (DiceNotation.reroll sides limit m dice : Rolling σ (List Die)) := by
  unfold DiceNotation.reroll
  split
  · split
    · exact .missingValue _
    · exact .pure _
  · exact (of_settles (replaceLow_settles _ _ dice)).bind fun result => .pure _

theorem explode (limit : Int) (m : Modifier) (dice : List Die) :
    NeverArithmetic (DiceNotation.explode sides limit m dice : Rolling σ (List Die)) := by
  unfold DiceNotation.explode
  split
  · split
    · exact .missingValue _
    · exact .pure _
  · dsimp only
    split
    · exact (of_settles (explodeChains_settles _ _ dice)).bind fun result => .pure _
    · exact (of_settles (explodeOnce_settles _ dice)).bind fun result => .pure _

theorem modifier (limits : Limits) (dice : List Die) (m : Modifier) :
    NeverArithmetic (m.run limits sides dice : Rolling σ (List Die)) := by
  unfold Modifier.run
  cases m.kind.stage with
  | reroll => exact reroll sides _ m dice
  | explosion => exact explode sides _ m dice
  | selection =>
    cases m.value with
    | none => exact .missingValue _
    | some n => exact .pure _

theorem modifiers (limits : Limits) (modifiers : List Modifier) (dice : List Die) :
    NeverArithmetic (modifiers.foldlM (Modifier.run limits sides) dice : Rolling σ (List Die)) := by
  induction modifiers generalizing dice with
  | nil => exact .pure _
  | cons m modifiers ih =>
    rw [List.foldlM_cons]
    exact (modifier sides limits dice m).bind fun next => ih next

theorem term (limits : Limits) (t : DiceTerm) :
    NeverArithmetic (t.roll limits : Rolling σ (RolledTerm × Total)) := by
  have stage (stage : Stage) (dice : List Die) :
      NeverArithmetic (stage.run limits t dice : Rolling σ (List Die)) :=
    modifiers t.sides limits _ dice
  have dice : NeverArithmetic (t.rollDice limits : Rolling σ (List Die)) :=
    (of_settles (rollMany_settles t.count.toNat)).bind fun rolled =>
      (stage .reroll rolled).bind fun rerolled =>
        (stage .explosion rerolled).bind fun exploded => stage .selection exploded
  exact dice.bind fun dice => .pure _

end NeverArithmetic

end DiceNotation
