import DiceNotation.Dice.Die

/-!
Rerolls: a live die at or below a threshold is marked and replaced, by one die or by dice until one
lies above the threshold. The replacements stand after all the dice that were there before.
-/
namespace DiceNotation

variable {σ : Type} [Source σ]

/-- At most `cap` dice, rolled until one lies above the threshold; all but the last are marked. -/
def rerollChain (sides : Option Int) (threshold : Int) : Nat → Rolling σ (List Die)
  | 0 => return []
  | cap + 1 => do
      let die ← rollDie sides .reroll
      if threshold < die.value ∨ cap = 0 then return [die]
      else
        let rest ← rerollChain sides threshold cap
        return die.markRerolled :: rest

/-- Goes through the dice in order: the dice as they are marked, and the replacements. A die with no
replacement keeps its place. -/
def replaceLow (sides : Option Int) (threshold : Int) (cap : Nat) :
    List Die → Rolling σ (List Die × List Die)
  | [] => return ([], [])
  | die :: dice => do
      if die.live ∧ die.value ≤ threshold then
        let chain ← rerollChain sides threshold cap
        let (marked, added) ← replaceLow sides threshold cap dice
        return ((if chain = [] then die else die.markRerolled) :: marked, chain ++ added)
      else
        let (marked, added) ← replaceLow sides threshold cap dice
        return (die :: marked, added)

def reroll (sides : Option Int) (limit : Int) (m : Modifier) (dice : List Die) :
    Rolling σ (List Die) := do
  match m.value with
  | none => if dice.any Die.live then throw (.missingValue m.kind) else return dice
  | some threshold =>
      let cap := if m.kind = .rerollAll then limit.toNat else 1
      let (marked, added) ← replaceLow sides threshold cap dice
      return marked ++ added

end DiceNotation
