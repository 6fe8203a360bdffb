import DiceNotation.Dice.Die

/-!
Explosions: a live die at or above a threshold brings another die. Those that `explodeAll` brings
may explode in turn, until the explosions of the term are used up.
-/
namespace DiceNotation

variable {σ : Type} [Source σ]

def Die.triggers (threshold : Int) (d : Die) : Bool :=
  d.live && !d.exploded && decide (threshold ≤ d.value)

def explodeOnce (sides : Option Int) (threshold : Int) :
    List Die → Rolling σ (List Die × List Die)
  | [] => return ([], [])
  | die :: dice => do
      if die.triggers threshold then
        let bonus ← rollDie sides .explosion
        let (marked, added) ← explodeOnce sides threshold dice
        return (die.markExploded :: marked, bonus :: added)
      else
        let (marked, added) ← explodeOnce sides threshold dice
        return (die :: marked, added)

/-- The dice that one die brings which triggers, with the explosions that are left. A die of the
chain that reaches the threshold explodes as long as there are any. -/
def explosionChain (sides : Option Int) (threshold : Int) : Nat → Rolling σ (List Die × Nat)
  | 0 => return ([], 0)
  | left + 1 => do
      let bonus ← rollDie sides .explosion
      if threshold ≤ bonus.value ∧ left ≠ 0 then
        let (chain, left) ← explosionChain sides threshold left
        return (bonus.markExploded :: chain, left)
      else return ([bonus], left)

/-- Each die that triggers brings a chain; all chains share the explosions. -/
def explodeChains (sides : Option Int) (threshold : Int) :
    Nat → List Die → Rolling σ (List Die × List Die)
  | _, [] => return ([], [])
  | left, die :: dice => do
      if die.triggers threshold ∧ left ≠ 0 then
        let (chain, left) ← explosionChain sides threshold left
        let (marked, added) ← explodeChains sides threshold left dice
        return (die.markExploded :: marked, chain ++ added)
      else
        let (marked, added) ← explodeChains sides threshold left dice
        return (die :: marked, added)

/-- One explosion stage. Without a threshold dice explode on their highest face, which fudge dice do
not have. -/
def explode (sides : Option Int) (limit : Int) (m : Modifier) (dice : List Die) :
    Rolling σ (List Die) := do
  match m.value.or sides with
  | none =>
      if dice.any fun d => d.live && !d.exploded then throw (.missingValue m.kind) else return dice
  | some threshold =>
      let (marked, added) ←
        if m.kind = .explodeAll then explodeChains sides threshold limit.toNat dice
        else explodeOnce sides threshold dice
      return marked ++ added

end DiceNotation
