import DiceNotation.Dice.Rolling

/-!
One die of a roll. Dice are never taken away: what happens to a die is marked on it.
-/
namespace DiceNotation

inductive Extreme where
  | none | lowest | highest
  deriving DecidableEq, Repr

def Extreme.name : Extreme → String
  | none => "none"
  | lowest => "min"
  | highest => "max"

inductive Origin where
  | initial | reroll | explosion
  deriving DecidableEq, Repr

def Origin.name : Origin → String
  | initial => "initial"
  | reroll => "reroll"
  | explosion => "explosion"

structure Die where
  value : Int
  origin : Origin := .initial
  dropped : Bool := false
  rerolled : Bool := false
  exploded : Bool := false
  extreme : Extreme := .none
  deriving DecidableEq, Repr

namespace Die

def live (d : Die) : Bool := !(d.dropped || d.rerolled)

def markDropped (d : Die) : Die := { d with dropped := true }

def markRerolled (d : Die) : Die := { d with rerolled := true }

def markExploded (d : Die) : Die := { d with exploded := true }

end Die

/-- The highest face counts before the lowest, which matters for a die with one side. -/
def extremeOf (sides value : Int) : Extreme :=
  if value = sides then .highest else if value = 1 then .lowest else .none

/-- Rolls one die. Fudge dice have the faces -1, 0 and 1 and no extremes. -/
def rollDie {σ : Type} [Source σ] (sides : Option Int) (origin : Origin) : Rolling σ Die := do
  match sides with
  | none =>
      let face ← drawFace 3
      return { value := face - 2, origin := origin }
  | some sides =>
      let face ← drawFace sides
      return { value := face, origin := origin, extreme := extremeOf sides face }

def rollMany {σ : Type} [Source σ] (sides : Option Int) : Nat → Rolling σ (List Die)
  | 0 => return []
  | n + 1 => do
      let die ← rollDie sides .initial
      let rest ← rollMany sides n
      return die :: rest

def liveValues (dice : List Die) : List Int := (dice.filter Die.live).map Die.value

end DiceNotation
