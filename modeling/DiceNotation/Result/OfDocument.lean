import DiceNotation.Document.Scalar
import DiceNotation.Result.Basic

/-!
Reading results back from documents. Fields that have a default may be left out, and fields of
other names are passed over.
-/
namespace DiceNotation

def readDie : Document → Checked Die :=
  readObject fun fields =>
    Die.mk <$> requiredField fields "value" readInt
      <*> optionalField fields "origin" .initial
        (readMember Origin.name [.initial, .reroll, .explosion] .noMember)
      <*> optionalField fields "dropped" false readBool
      <*> optionalField fields "rerolled" false readBool
      <*> optionalField fields "exploded" false readBool
      <*> optionalField fields "critic" .none
        (readMember Extreme.name [.none, .lowest, .highest] .noMember)

def readRolledTerm (fields : Fields) : Checked HistoryItem :=
  (RolledTerm.mk <$> requiredField fields "expression" readText
    <*> requiredField fields "sides" (readNullable readInt)
    <*> requiredField fields "dice" (readList readDie)).map .roll

def readHistoryItem : Document → Checked HistoryItem :=
  readTagged fun
    | "roll" => some readRolledTerm
    | "value" => some fun fields => (requiredField fields "value" readDecimal).map .value
    | "operator" => some fun fields => (requiredField fields "operator"
        (readMember Operator.symbol [.add, .sub, .mul, .div] .noMember)).map .operator
    | "paren" => some fun fields => (requiredField fields "symbol"
        (readMember Paren.symbol [.opening, .closing] .noLiteral)).map .paren
    | _ => none

def readTotal : Document → Checked Total :=
  readTagged fun
    | "value" => some fun fields => (requiredField fields "value" readDecimal).map .value
    | "success" => some fun fields => (requiredField fields "successes" readInt).map .success
    | _ => none

def readSingleKind : Document → Checked Unit
  | .text "single" => .ok ()
  | _ => .fail .noLiteral

def readSingle (fields : Fields) : Checked SingleResult :=
  (fun _ expression history total reason => ⟨expression, history, total, reason⟩)
    <$> optionalField fields "kind" () readSingleKind
    <*> requiredField fields "expression" readText
    <*> requiredField fields "history" (readList readHistoryItem)
    <*> requiredField fields "total" readTotal
    <*> optionalField fields "reason" none (readNullable readText)

def readRepeated (fields : Fields) : Checked RepeatedResult :=
  RepeatedResult.mk <$> requiredField fields "expression" readText
    <*> requiredField fields "rolls" (readList (readObject readSingle))
    <*> optionalField fields "combined_total" none (readNullable readDecimal)
    <*> optionalField fields "sorted" false readBool
    <*> optionalField fields "reason" none (readNullable readText)

def Result.ofDocument : Document → Checked Result :=
  readTagged fun
    | "single" => some fun fields => (readSingle fields).map .single
    | "repeated" => some fun fields => (readRepeated fields).map .repeated
    | _ => none

end DiceNotation
