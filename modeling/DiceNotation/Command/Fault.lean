import DiceNotation.Command.Basic
import DiceNotation.Grammar.Reading
import DiceNotation.Text.Numeral

/-!
Why a text is refused as a command.
-/
namespace DiceNotation

open Text

/-- The clauses of a scoring. A threshold and a list are one kind of target. -/
inductive ClauseKind where
  | target | doubleTarget | failure
  deriving DecidableEq, Repr

def ClauseKind.label : ClauseKind → String
  | target => "target (t)"
  | doubleTarget => "double target (tt)"
  | failure => "failure (f)"

inductive Fault where
  | tooManyDice (count : Nat) (bound : Int)
  | noSides (text : String)
  | tooManySides (sides : Nat) (bound : Int)
  | duplicateClause (kind : ClauseKind) (text : String)
  | listWithDoubleTarget (text : String)
  | emptyTargetList
  | noRepetition
  | tooManyRepetitions (times : Nat) (bound : Int)
  deriving DecidableEq, Repr

inductive NumeralRule where
  | integer | dice | modifier (kind : ModifierKind) | target | targetList | doubleTarget | failure
  | repetition
  deriving DecidableEq, Repr

inductive BuildError where
  | stuck (text : String) (place : Grammar.Stuck)
  | fault (fault : Fault)
  | longNumeral (rule : NumeralRule) (digits : Nat)
  deriving DecidableEq, Repr

def Fault.message : Fault → String
  | tooManyDice count bound =>
      s!"Too many dice: {signedNumeral count} (max {signedNumeral bound})"
  | noSides text => s!"Dice can't have 0 sides: {quoted text}"
  | tooManySides sides bound =>
      s!"Too many sides: {signedNumeral sides} (max {signedNumeral bound})"
  | duplicateClause kind text => s!"Duplicate {kind.label} clause in {quoted text}"
  | listWithDoubleTarget text =>
      s!"A target list can't be combined with a double target in {quoted text}"
  | emptyTargetList => "A target list needs at least one value"
  | noRepetition => "Can't repeat an expression 0 times"
  | tooManyRepetitions times bound =>
      s!"Too many repetitions: {signedNumeral times} (max {signedNumeral bound})"

def NumeralRule.name : NumeralRule → String
  | integer => "integer_literal"
  | dice => "dice"
  | modifier .explode => "explode"
  | modifier .explodeAll => "i_explode"
  | modifier .reroll => "reroll"
  | modifier .rerollAll => "i_reroll"
  | modifier .keepHigh => "keep_hi"
  | modifier .keepLow => "keep_lo"
  | modifier .dropHigh => "drop_hi"
  | modifier .dropLow => "drop_lo"
  | target => "target"
  | targetList => "target_list"
  | doubleTarget => "double_target"
  | failure => "failure"
  | repetition => "repeated_expr"

def Grammar.Stuck.descriptions (s : Grammar.Stuck) : List String :=
  ((s.expected.map Grammar.Terminal.description).mergeSort fun a b => !(b < a)).eraseDups

def Grammar.Stuck.column (s : Grammar.Stuck) : Nat := s.position + 1

def foundAt (text : String) (position : Nat) : String :=
  match text.toList[position]? with
  | some c => quoted (String.singleton c)
  | none => "end of input"

def BuildError.message : BuildError → String
  | stuck text place =>
      let found := foundAt text place.position
      let wanted := match place.descriptions with
        | [] => ""
        | descriptions => ", expected one of: " ++ ", ".intercalate descriptions
      s!"Invalid dice expression {quoted text}: " ++
      s!"unexpected {found} at column {place.column}" ++ wanted
  | fault f => f.message
  | longNumeral rule digits =>
      s!"Error trying to process rule \"{rule.name}\":\n\nExceeds the limit (4300 digits) for " ++
      s!"integer string conversion: value has {digits} digits; use " ++
      "sys.set_int_max_str_digits() to increase the limit"

end DiceNotation
