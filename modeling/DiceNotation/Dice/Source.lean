import DiceNotation.Text.Numeral

/-!
Sources of die faces. A source is asked for one die at a time and is told how many sides it has;
what it answers depends on its state alone.
-/
namespace DiceNotation

inductive DrawError where
  | exhausted (drawn : Nat)
  | misfit (value sides : Int)
  | noSides
  deriving DecidableEq, Repr

def DrawError.message : DrawError → String
  | exhausted drawn => s!"Scripted source ran out of values after {drawn} dice"
  | misfit value sides =>
      s!"Scripted value {Text.signedNumeral value} does not fit a " ++
      s!"{Text.signedNumeral sides}-sided die"
  | noSides => "integer modulo by zero"

/-- Answers with a face and with the source that is left. A source that has no answer may still
have changed. -/
class Source (σ : Type) where
  draw : σ → Int → Except DrawError Int × σ

structure Script where
  faces : List Int
  upcoming : List Int
  cyclic : Bool
  consumed : Nat
  deriving DecidableEq, Repr

namespace Script

def ofList (faces : List Int) (cyclic : Bool) : Script := ⟨faces, faces, cyclic, 0⟩

/-- A face that no such die has is used up, but does not count as drawn. -/
def take (s : Script) (value : Int) (upcoming : List Int) (sides : Int) :
    Except DrawError Int × Script :=
  if 1 ≤ value ∧ value ≤ sides then
    (.ok value, { s with upcoming := upcoming, consumed := s.consumed + 1 })
  else (.error (.misfit value sides), { s with upcoming := upcoming })

def draw (s : Script) (sides : Int) : Except DrawError Int × Script :=
  match s.upcoming, s.faces, s.cyclic with
  | value :: upcoming, _, _ => s.take value upcoming sides
  | [], value :: upcoming, true => s.take value upcoming sides
  | [], _, _ => (.error (.exhausted s.consumed), s)

instance : Source Script := ⟨draw⟩

end Script

/-- A generator of numbers between two bounds: it answers with given numbers over and over, whatever
the bounds are, and keeps the bounds it was asked for, the latest in front. -/
structure Generator where
  faces : List Int
  upcoming : List Int
  asked : List (Int × Int)
  deriving DecidableEq, Repr

namespace Generator

def ofList (faces : List Int) : Generator := ⟨faces, faces, []⟩

def between (g : Generator) (low high : Int) : Int × Generator :=
  let asked := (low, high) :: g.asked
  match g.upcoming, g.faces with
  | value :: upcoming, _ => (value, { g with upcoming := upcoming, asked := asked })
  | [], value :: upcoming => (value, { g with upcoming := upcoming, asked := asked })
  | [], [] => (low, { g with asked := asked })

def draw (g : Generator) (sides : Int) : Except DrawError Int × Generator :=
  let (value, g) := g.between 1 sides
  (.ok value, g)

instance : Source Generator := ⟨draw⟩

end Generator

structure Congruential where
  state : Int
  asked : List Int
  deriving DecidableEq, Repr

namespace Congruential

def ofSeed (seed : Int) : Congruential := ⟨seed, []⟩

def draw (c : Congruential) (sides : Int) : Except DrawError Int × Congruential :=
  let state := (c.state * 1103515245 + 12345).fmod 2147483648
  let next : Congruential := ⟨state, sides :: c.asked⟩
  if sides = 0 then (.error .noSides, next)
  else (.ok ((state.fdiv 256).fmod sides + 1), next)

instance : Source Congruential := ⟨draw⟩

end Congruential

/-- A source of one of the kinds above, or one of unknown faces that only one-sided dice may be
rolled against. -/
inductive AnySource where
  | script (s : Script)
  | generator (g : Generator)
  | congruential (c : Congruential)
  | unseeded
  deriving DecidableEq, Repr

namespace AnySource

def draw (source : AnySource) (sides : Int) : Except DrawError Int × AnySource :=
  match source with
  | script s => (s.draw sides).map id script
  | generator g => (g.draw sides).map id generator
  | congruential c => (c.draw sides).map id congruential
  | unseeded => (.ok 1, unseeded)

instance : Source AnySource := ⟨draw⟩

end AnySource
end DiceNotation
