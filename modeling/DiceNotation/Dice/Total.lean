import DiceNotation.Dice.Die
import DiceNotation.Dice.Scoring

/-!
What the live dice of a term amount to.
-/
namespace DiceNotation

/-- Successes are counted less the failures, so there may be fewer than none. -/
inductive Total where
  | value (value : Decimal)
  | success (successes : Int)
  deriving DecidableEq, Repr

namespace Total

def amount : Total → Decimal
  | value d => d
  | success n => .ofInt n

def isSuccess : Total → Bool
  | value _ => false
  | success _ => true

def ofDice (scoring : Option Scoring) (dice : List Die) : Total :=
  match scoring with
  | none => value (.ofInt ((liveValues dice).foldr (· + ·) 0))
  | some s => success (((liveValues dice).map s.score).foldr (· + ·) 0)

end Total
end DiceNotation
