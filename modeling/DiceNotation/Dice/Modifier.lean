/-!
Modifiers of a dice term: what they do, in which stage of a roll they do it, and which of them take
effect. Of several modifiers of a kind the last one counts; those of different kinds keep the order
in which they are written.
-/
namespace DiceNotation

inductive ModifierKind where
  | explode | explodeAll | reroll | rerollAll | keepHigh | keepLow | dropHigh | dropLow
  deriving DecidableEq, Repr

def ModifierKind.symbol : ModifierKind → String
  | explode => "e"
  | explodeAll => "ie"
  | reroll => "r"
  | rerollAll => "ir"
  | keepHigh => "K"
  | keepLow => "k"
  | dropHigh => "D"
  | dropLow => "d"

/-- Only explosions do without a value: they look for the highest face. -/
structure Modifier where
  kind : ModifierKind
  value : Option Int
  deriving DecidableEq, Repr

inductive Stage where
  | reroll | explosion | selection
  deriving DecidableEq, Repr

def ModifierKind.stage : ModifierKind → Stage
  | reroll | rerollAll => .reroll
  | explode | explodeAll => .explosion
  | keepHigh | keepLow | dropHigh | dropLow => .selection

def lastOfEach : List Modifier → List Modifier
  | [] => []
  | m :: rest => if rest.any (·.kind = m.kind) then lastOfEach rest else m :: lastOfEach rest

def Stage.select (stage : Stage) (modifiers : List Modifier) : List Modifier :=
  lastOfEach (modifiers.filter (·.kind.stage = stage))

end DiceNotation
