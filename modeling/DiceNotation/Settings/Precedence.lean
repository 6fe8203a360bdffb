import DiceNotation.Document.Scalar
import DiceNotation.Limits
import DiceNotation.Settings.VariableFile

/-!
Where limits come from: arguments count before the environment, the environment before a file of
variables, and that before the defaults.
-/
namespace DiceNotation.Settings

/-- All that limits may be given by. The names of variables begin with the name of their owner,
which is in lower case here; the case of their letters does not count. -/
structure Given where
  owner : String
  arguments : Fields
  environment : List (String × String)
  file : Option String

namespace Given

def valueOf? (g : Given) (bindings : List Binding) (limit : String) : Option Document :=
  (bindings.reverse.find? fun (name, _) => name.map Char.toLower = g.owner ++ "_" ++ limit).bind
    fun (_, value) => value.map .text

def argument? (g : Given) (limit : String) : Option Document :=
  (g.arguments.find? fun (name, _) => name.map Char.toLower = limit).map (·.2)

def find? (g : Given) (limit : String) : Option Document :=
  let surrounding := g.environment.map fun (name, value) => (name, some value)
  let written := g.file.elim [] (variablesOf g.environment)
  (g.argument? limit).or ((g.valueOf? surrounding limit).or (g.valueOf? written limit))

def readLimit (g : Given) (limit : String) (default : Int) : Checked Int :=
  match g.find? limit with
  | none => .ok default
  | some d => .within (.field limit) (readInt d)

def limits (g : Given) : Checked Limits :=
  let defaults : Limits := {}
  Limits.mk <$> g.readLimit "max_dice" defaults.maxDice
    <*> g.readLimit "max_sides" defaults.maxSides
    <*> g.readLimit "max_repeat" defaults.maxRepeat
    <*> g.readLimit "max_rerolls" defaults.maxRerolls
    <*> g.readLimit "max_explosions" defaults.maxExplosions

end Given
end DiceNotation.Settings
