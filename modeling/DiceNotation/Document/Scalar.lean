import DiceNotation.Decimal.Text
import DiceNotation.Document.WholeText

/-!
Readers of single values. Numbers may also be written as text.
-/
namespace DiceNotation

open Text

def readText : Document → Checked String
  | .text s => .ok s
  | _ => .fail .textExpected

def readWholeBinary : Binary → Checked Int
  | .finite negative significand exponent =>
      match Binary.wholeMagnitude? significand exponent with
      | none => .fail .intFraction
      | some n =>
          if n < Nat.pow 2 63 then .ok (if negative then -(n : Int) else n) else .fail .intTooLong
  | _ => .fail .notFinite

def readInt : Document → Checked Int
  | .int n => .ok n
  | .bool b => .ok (if b then 1 else 0)
  | .float x => readWholeBinary x
  | .text s => WholeText.read s.toList
  | _ => .fail .intExpected

def boolOfInt (n : Int) : Checked Bool :=
  if n = 0 then .ok false else if n = 1 then .ok true else .fail .boolUnreadable

def readBool : Document → Checked Bool
  | .bool b => .ok b
  | .int n =>
      if -(Nat.pow 2 63 : Nat) ≤ n ∧ n < (Nat.pow 2 63 : Nat) then boolOfInt n
      else .fail .boolExpected
  | .float x =>
      match readWholeBinary x with
      | .ok n => boolOfInt n
      | .problems _ => .fail .boolExpected
  | .text s =>
      let word := s.map Char.toLower
      if ["0", "off", "f", "false", "n", "no"].contains word then .ok false
      else if ["1", "on", "t", "true", "y", "yes"].contains word then .ok true
      else .fail .boolUnreadable
  | _ => .fail .boolExpected

def readDecimal : Document → Checked Decimal
  | .int n => .ok (.ofInt n)
  | .float (.finite negative significand exponent) =>
      .ok (Binary.shortest negative significand exponent)
  | .float _ => .fail .notFinite
  | .text s =>
      match Decimal.readNumeric? s.toList with
      | some (.finite d) => .ok d
      | some _ => .fail .notFinite
      | none => .fail .decimalUnreadable
  | _ => .fail .decimalExpected

def readMember {α : Type} (name : α → String) (members : List α) (problem : ProblemKind) :
    Document → Checked α
  | .text s =>
      match members.find? fun a => name a = s with
      | some a => .ok a
      | none => .fail problem
  | _ => .fail problem

end DiceNotation
