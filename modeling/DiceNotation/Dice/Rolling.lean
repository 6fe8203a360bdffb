import DiceNotation.Decimal.Operation
import DiceNotation.Dice.Modifier
import DiceNotation.Dice.Source

/-!
Why a roll fails, and the steps that a roll is made of: each may draw from the source or fail, and
what was drawn before a failure stays drawn.
-/
namespace DiceNotation

inductive RollError where
  | draw (e : DrawError)
  | arithmetic (e : ArithmeticError)
  /-- The sum of a repetition has too large an exponent. -/
  | sumOverflow
  /-- A modifier was given no value where it needs one. -/
  | missingValue (kind : ModifierKind)
  deriving DecidableEq, Repr

def missingComparison : ModifierKind → String
  | .explode | .explodeAll => ">="
  | .reroll | .rerollAll => ">"
  | _ => "<"

def RollError.message : RollError → String
  | draw e => e.message
  | arithmetic e => e.message
  | sumOverflow => "[<class 'decimal.Overflow'>]"
  | missingValue kind =>
      let comparison := missingComparison kind
      s!"'{comparison}' not supported between instances of 'int' and 'NoneType'"

abbrev Rolling (σ : Type) := ExceptT RollError (StateM σ)

def drawFace {σ : Type} [Source σ] (sides : Int) : Rolling σ Int := fun source =>
  match Source.draw source sides with
  | (.ok value, source) => (.ok value, source)
  | (.error e, source) => (.error (.draw e), source)

end DiceNotation
