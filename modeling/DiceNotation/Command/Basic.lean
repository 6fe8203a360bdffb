import DiceNotation.Decimal.Operation
import DiceNotation.Dice.Modifier
import DiceNotation.Dice.Scoring

/-!
Commands: what is to be rolled. The `text` of a node is the part of the input that it was built
from; it says nothing about what is rolled, and sameness does not look at it.
-/
namespace DiceNotation

/-- Dice of one kind. Fudge dice have no number of sides. -/
structure DiceTerm where
  count : Int
  sides : Option Int
  modifiers : List Modifier
  scoring : Option Scoring
  text : String
  deriving DecidableEq, Repr

def DiceTerm.isFudge (t : DiceTerm) : Bool := t.sides.isNone

inductive Expression where
  | dice (term : DiceTerm)
  | integer (value : Int)
  | float (value : Decimal)
  | group (inner : Expression)
  | binary (op : Operator) (left right : Expression)
  deriving DecidableEq, Repr

inductive RepeatMode where
  | plain | sum | sort
  deriving DecidableEq, Repr

def RepeatMode.name : RepeatMode → String
  | plain => "plain"
  | sum => "sum"
  | sort => "sort"

structure Repetition where
  inner : Expression
  times : Int
  mode : RepeatMode
  text : String
  deriving DecidableEq, Repr

inductive Body where
  | once (expression : Expression)
  | repeated (repetition : Repetition)
  deriving DecidableEq, Repr

structure Command where
  body : Body
  reason : Option String
  text : String
  deriving DecidableEq, Repr

def Expression.diceTerms : Expression → List DiceTerm
  | dice term => [term]
  | integer _ => []
  | float _ => []
  | group inner => inner.diceTerms
  | binary _ left right => left.diceTerms ++ right.diceTerms

def Body.diceTerms : Body → List DiceTerm
  | once expression => expression.diceTerms
  | repeated repetition => repetition.inner.diceTerms

def Command.diceTerms (c : Command) : List DiceTerm := c.body.diceTerms

def DiceTerm.same (a b : DiceTerm) : Bool :=
  a.count = b.count && a.sides = b.sides && a.modifiers = b.modifiers && a.scoring = b.scoring

def Expression.same : Expression → Expression → Bool
  | dice a, dice b => a.same b
  | integer a, integer b => a = b
  | float a, float b => a.sameValue b
  | group a, group b => a.same b
  | binary op left right, binary op' left' right' =>
      op = op' && left.same left' && right.same right'
  | _, _ => false

def Body.same : Body → Body → Bool
  | once a, once b => a.same b
  | repeated a, repeated b => a.inner.same b.inner && a.times = b.times && a.mode = b.mode
  | _, _ => false

def Command.same (a b : Command) : Bool := a.body.same b.body && a.reason = b.reason

end DiceNotation
