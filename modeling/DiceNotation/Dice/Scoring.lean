/-!
Scoring: the clauses that make a term count successes, and the successes and failures of one die.
Failure is counted on its own, so one die can both succeed and fail.
-/
namespace DiceNotation

structure Scoring where
  target : Option Int
  targetValues : Option (List Int)
  doubleTarget : Option Int
  failure : Option Int
  deriving DecidableEq, Repr

namespace Scoring

def empty : Scoring := ⟨none, none, none, none⟩

def successes (s : Scoring) (value : Int) : Int :=
  if s.doubleTarget.any (· ≤ value) then 2
  else match s.targetValues with
    | some values => if value ∈ values then 1 else 0
    | none => if s.target.any (· ≤ value) then 1 else 0

def fails (s : Scoring) (value : Int) : Bool := s.failure.any (value ≤ ·)

def score (s : Scoring) (value : Int) : Int :=
  s.successes value - if s.fails value then 1 else 0

end Scoring
end DiceNotation
