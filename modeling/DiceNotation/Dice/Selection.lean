import DiceNotation.Dice.Die

/-!
Selection: dropping the highest or the lowest live dice. Keeping some dice is dropping the others.
Of equal dice the one that was rolled first is dropped first.
-/
namespace DiceNotation

def dropRank (highest : Bool) (die : Die) (place : Nat) : Int × Nat :=
  (if highest then -die.value else die.value, place)

def rankLe (a b : Int × Nat) : Bool := decide (a.1 < b.1 ∨ a.1 = b.1 ∧ a.2 ≤ b.2)

def dropOrder (highest : Bool) (dice : List Die) : List (Int × Nat) :=
  ((dice.zipIdx.filter fun (die, _) => die.live).map fun (die, place) =>
    dropRank highest die place).mergeSort rankLe

def liveCount (dice : List Die) : Nat := dice.countP Die.live

def clampCount (n : Int) (dice : List Die) : Nat := min n.toNat (liveCount dice)

/-- Drops a number of the highest or the lowest live dice: those that rank no later than the last
one to be dropped. -/
def dropDice (highest : Bool) (n : Nat) (dice : List Die) : List Die :=
  match n with
  | 0 => dice
  | last + 1 =>
      match (dropOrder highest dice)[last]? with
      | none => dice
      | some cutoff =>
          dice.zipIdx.map fun (die, place) =>
            if die.live && rankLe (dropRank highest die place) cutoff then die.markDropped else die

def select (kind : ModifierKind) (n : Int) (dice : List Die) : List Die :=
  match kind with
  | .dropHigh => dropDice true (clampCount n dice) dice
  | .dropLow => dropDice false (clampCount n dice) dice
  | .keepHigh => dropDice false (liveCount dice - clampCount n dice) dice
  | .keepLow => dropDice true (liveCount dice - clampCount n dice) dice
  | _ => dice

end DiceNotation
