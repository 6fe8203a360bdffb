import DiceNotation.Dice.Term

/-!
What a roll leaves behind: the history of everything that was rolled and computed, and the total.
-/
namespace DiceNotation

inductive Paren where
  | opening | closing
  deriving DecidableEq, Repr

def Paren.symbol : Paren → String
  | opening => "("
  | closing => ")"

inductive HistoryItem where
  | roll (term : RolledTerm)
  | value (value : Decimal)
  | operator (op : Operator)
  | paren (p : Paren)
  deriving DecidableEq, Repr

structure SingleResult where
  expression : String
  history : List HistoryItem
  total : Total
  reason : Option String := none
  deriving DecidableEq, Repr

structure RepeatedResult where
  expression : String
  rolls : List SingleResult
  sum : Option Decimal := none
  sorted : Bool := false
  reason : Option String := none
  deriving DecidableEq, Repr

inductive Result where
  | single (r : SingleResult)
  | repeated (r : RepeatedResult)
  deriving DecidableEq, Repr

def Result.withReason (reason : Option String) : Result → Result
  | single r => .single { r with reason := reason }
  | repeated r => .repeated { r with reason := reason }

end DiceNotation
