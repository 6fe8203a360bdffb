import DiceNotation.Command.Basic
import DiceNotation.Dice.Explosion
import DiceNotation.Dice.Reroll
import DiceNotation.Dice.Selection
import DiceNotation.Dice.Total
import DiceNotation.Limits

/-!
Rolling one dice term: the dice are rolled, then rerolls, explosions and selections run, in this
order, each on the dice that are still live.
-/
namespace DiceNotation

variable {σ : Type} [Source σ]

structure RolledTerm where
  expression : String
  sides : Option Int
  dice : List Die
  deriving DecidableEq, Repr

def Modifier.run (limits : Limits) (sides : Option Int) (dice : List Die) (m : Modifier) :
    Rolling σ (List Die) :=
  match m.kind.stage with
  | .reroll => reroll sides limits.maxRerolls m dice
  | .explosion => explode sides limits.maxExplosions m dice
  | .selection =>
      match m.value with
      | none => throw (.missingValue m.kind)
      | some n => return select m.kind n dice

def Stage.run (limits : Limits) (t : DiceTerm) (stage : Stage) (dice : List Die) :
    Rolling σ (List Die) :=
  (stage.select t.modifiers).foldlM (Modifier.run limits t.sides) dice

def DiceTerm.rollDice (limits : Limits) (t : DiceTerm) : Rolling σ (List Die) := do
  let rolled ← rollMany t.sides t.count.toNat
  let rerolled ← Stage.reroll.run limits t rolled
  let exploded ← Stage.explosion.run limits t rerolled
  Stage.selection.run limits t exploded

def DiceTerm.roll (limits : Limits) (t : DiceTerm) : Rolling σ (RolledTerm × Total) := do
  let dice ← t.rollDice limits
  return (⟨t.text, t.sides, dice⟩, .ofDice t.scoring dice)

end DiceNotation
