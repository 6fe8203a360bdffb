import DiceNotation.Result.Basic

/-!
Evaluation of an expression: its dice are rolled from left to right, and its value is computed
together with the history of what led to it.
-/
namespace DiceNotation

variable {σ : Type} [Source σ]

structure Evaluation where
  value : Decimal
  history : List HistoryItem
  successes : Bool
  deriving DecidableEq, Repr

def Operator.keepsSuccesses : Operator → Bool
  | add | sub => true
  | mul | div => false

def combine (op : Operator) (left right : Decimal) : Rolling σ Decimal :=
  match op.apply left right with
  | .ok value => return value
  | .error e => throw (.arithmetic e)

def Expression.evaluate (limits : Limits) : Expression → Rolling σ Evaluation
  | .dice term => do
      let (rolled, total) ← term.roll limits
      return ⟨total.amount, [.roll rolled], total.isSuccess⟩
  | .integer value => return ⟨.ofInt value, [.value (.ofInt value)], false⟩
  | .float value => return ⟨value, [.value value], false⟩
  | .group inner => do
      let e ← inner.evaluate limits
      return ⟨e.value, .paren .opening :: e.history ++ [.paren .closing], e.successes⟩
  | .binary op left right => do
      let l ← left.evaluate limits
      let r ← right.evaluate limits
      let value ← combine op l.value r.value
      return ⟨value, l.history ++ .operator op :: r.history,
        l.successes && r.successes && op.keepsSuccesses⟩

def Evaluation.total (e : Evaluation) : Total :=
  if e.successes then .success e.value.truncate else .value e.value

def Expression.roll (limits : Limits) (e : Expression) (text : String) :
    Rolling σ SingleResult := do
  let evaluation ← e.evaluate limits
  return { expression := text, history := evaluation.history, total := evaluation.total }

end DiceNotation
