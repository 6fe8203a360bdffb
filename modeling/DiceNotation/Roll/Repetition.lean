import DiceNotation.Roll.Evaluation

/-!
Repetition: an expression is evaluated several times in a row. The totals may be summed, and the
results may be sorted by their totals, those with equal totals in the order in which they were
rolled.
-/
namespace DiceNotation

variable {σ : Type} [Source σ]

/-- Sums have 28 digits, and halves go to the even neighbour. -/
def sumContext : Context := ⟨28, .halfEven, -999999, 999999⟩

def rollTimes (limits : Limits) (e : Expression) (text : String) :
    Nat → Rolling σ (List SingleResult)
  | 0 => return []
  | n + 1 => do
      let first ← e.roll limits text
      let rest ← rollTimes limits e text n
      return first :: rest

def sumOfTotals? (rolls : List SingleResult) : Option Decimal :=
  rolls.foldlM (fun sum roll => sumContext.add? sum roll.total.amount) (.ofInt 0)

def sortByTotal (rolls : List SingleResult) : List SingleResult :=
  rolls.mergeSort fun a b => a.total.amount.le b.total.amount

def Repetition.roll (limits : Limits) (r : Repetition) : Rolling σ RepeatedResult := do
  let rolls ← rollTimes limits r.inner r.text r.times.toNat
  match r.mode with
  | .plain => return { expression := r.text, rolls := rolls }
  | .sort => return { expression := r.text, rolls := sortByTotal rolls, sorted := true }
  | .sum =>
      match sumOfTotals? rolls with
      | none => throw .sumOverflow
      | some sum => return { expression := r.text, rolls := rolls, sum := some sum }

end DiceNotation
