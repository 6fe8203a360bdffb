import DiceNotation.Command.OfPhrase
import DiceNotation.Roll.Repetition

/-!
A roller is a command that has been checked, kept with its text and its limits, to be rolled any
number of times.
-/
namespace DiceNotation

structure Roller where
  text : String
  command : Command
  limits : Limits
  deriving DecidableEq, Repr

namespace Roller

def ofText (text : String) (limits : Limits) : Except BuildError Roller := do
  let command ← Command.parse text limits
  return ⟨text, command, limits⟩

def reason (r : Roller) : Option String := r.command.reason

def diceTexts (r : Roller) : List String := r.command.diceTerms.map (·.text)

/-- Drops the reason and its part of the text; the text of the command stays what it was. -/
def dropReason (r : Roller) : Roller :=
  let chars := r.text.toList
  if ':' ∈ chars then
    { r with
      text := String.ofList (Text.trimEnd (chars.takeWhile (· != ':')))
      command := { r.command with reason := none } }
  else r

def shown (r : Roller) : String := s!"Roller({Text.quoted r.text})"

def roll {σ : Type} [Source σ] (r : Roller) : Rolling σ Result := do
  match r.command.body with
  | .once e =>
      let result ← e.roll r.limits r.command.text
      return (Result.single result).withReason r.command.reason
  | .repeated repetition =>
      let result ← repetition.roll r.limits
      return (Result.repeated result).withReason r.command.reason

end Roller
end DiceNotation
