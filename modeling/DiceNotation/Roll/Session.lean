import DiceNotation.Result.Text
import DiceNotation.Roll.Roller

/-!
A session: one source that all rolls draw from, and the current roller.
-/
namespace DiceNotation

structure Session (σ : Type) where
  source : σ
  roller : Option Roller

inductive SessionStep where
  | new (text : String) (limits : Limits)
  | roll
  | dice
  | trim
  | shown
  | text
  | command
  | rollOnce (text : String)
  | die (sides : Int)
  deriving DecidableEq, Repr

inductive SessionAnswer where
  | nothing
  | outcome (outcome : Outcome)
  | texts (texts : List String)
  | text (text : String)
  | command (command : Command)
  | face (value : Int)
  deriving DecidableEq, Repr

inductive SessionError where
  | build (e : BuildError)
  | roll (e : RollError)
  | face (e : FaceError)
  /-- There is no roller to ask for this. -/
  | noRoller (wanted : String)
  deriving DecidableEq, Repr

def SessionError.message : SessionError → String
  | build e => e.message
  | roll e => e.message
  | face e => e.message
  | noRoller wanted => s!"'NoneType' object has no attribute '{wanted}'"

namespace Session

variable {σ : Type} [Source σ]

/-- Rolls and renders; what was drawn stays drawn if either fails. -/
def rollWith (s : Session σ) (r : Roller) :
    Except SessionError SessionAnswer × Session σ :=
  let (rolled, source) := r.roll.run s.source
  let answer := match rolled with
    | .error e => .error (.roll e)
    | .ok result =>
        match result.outcome with
        | .error e => .error (.face e)
        | .ok outcome => .ok (.outcome outcome)
  (answer, { s with source := source })

def ask (s : Session σ) (wanted : String) (f : Roller → SessionAnswer) :
    Except SessionError SessionAnswer × Session σ :=
  match s.roller with
  | none => (.error (.noRoller wanted), s)
  | some r => (.ok (f r), s)

def step (s : Session σ) : SessionStep → Except SessionError SessionAnswer × Session σ
  | .new text limits =>
      match Roller.ofText text limits with
      | .error e => (.error (.build e), s)
      | .ok r => (.ok .nothing, { s with roller := some r })
  | .roll =>
      match s.roller with
      | none => (.error (.noRoller "roll"), s)
      | some r => s.rollWith r
  | .dice => s.ask "dice" fun r => .texts r.diceTexts
  | .trim =>
      match s.roller with
      | none => (.error (.noRoller "trim_reason"), s)
      | some r => (.ok .nothing, { s with roller := some r.dropReason })
  | .shown => (.ok (.text (s.roller.elim "None" Roller.shown)), s)
  | .text => (.ok (.text (s.roller.elim "None" Roller.text)), s)
  | .command => s.ask "command" fun r => .command r.command
  | .rollOnce text =>
      match Roller.ofText text {} with
      | .error e => (.error (.build e), s)
      | .ok r => s.rollWith r
  | .die sides =>
      match (drawFace sides : Rolling σ Int).run s.source with
      | (.ok value, source) => (.ok (.face value), { s with source := source })
      | (.error e, source) => (.error (.roll e), { s with source := source })

end Session
end DiceNotation
