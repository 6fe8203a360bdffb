import DiceNotation.Decimal.Context
import DiceNotation.Decimal.Text

/-!
The four operations on decimals that are kept to at most two places. A result is rounded to the
precision first and put on cents after that.
-/
namespace DiceNotation

inductive Operator where
  | add | sub | mul | div
  deriving DecidableEq, Repr

def Operator.symbol : Operator → String
  | add => "+"
  | sub => "-"
  | mul => "*"
  | div => "/"

inductive ArithmeticError where
  | divisionByZero
  | overflow (left : Decimal) (op : Operator) (right : Decimal)
  deriving DecidableEq, Repr

def ArithmeticError.message : ArithmeticError → String
  | divisionByZero => "Can't divide by zero"
  | overflow left op right =>
      s!"Numeric overflow computing {left.text} {op.symbol} {right.text}"

def centContext : Context := ⟨28, .halfUp, -999999, 999999⟩

def Operator.compute? (op : Operator) (c : Context) (left right : Decimal) : Option Decimal :=
  match op with
  | .add => c.add? left right
  | .sub => c.sub? left right
  | .mul => c.mul? left right
  | .div => c.div? left right

def Decimal.onCents? (c : Context) (d : Decimal) : Option Decimal :=
  let placed? :=
    if d.exponent < -2 then c.quantize? d (-2)
    else if 0 < d.exponent then c.quantize? d 0
    else some d
  placed?.map fun d => if d.isZero then { d with negative := false } else d

def Operator.apply (op : Operator) (left right : Decimal) : Except ArithmeticError Decimal :=
  if op = .div ∧ right.isZero then .error .divisionByZero
  else match (op.compute? centContext left right).bind (·.onCents? centContext) with
    | some d => .ok d
    | none => .error (.overflow left op right)

end DiceNotation
