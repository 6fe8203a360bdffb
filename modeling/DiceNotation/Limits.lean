/-!
Bounds on commands and on open-ended rolls.
-/
namespace DiceNotation

/-- The first three are checked when a command is built. Reaching one of the others stops the
rerolls of a die or the explosions of a term, and is no error. -/
structure Limits where
  maxDice : Int := 5000
  maxSides : Int := 5000
  maxRepeat : Int := 5000
  maxRerolls : Int := 100
  maxExplosions : Int := 100
  deriving DecidableEq, Repr

end DiceNotation
