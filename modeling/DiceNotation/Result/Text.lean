import DiceNotation.Result.Basic
import DiceNotation.Text.Blank

/-!
Results as text for a reader, plain or with Markdown marks.
-/
namespace DiceNotation

open Text

structure FaceError where
  value : Int
  deriving DecidableEq, Repr

def FaceError.message (e : FaceError) : String := signedNumeral e.value

def bold (text : String) (markdown : Bool) : String :=
  if markdown then "**" ++ text ++ "**" else text

def Decimal.shown (d : Decimal) (markdown : Bool) : String := bold d.text markdown

def fudgeFace (value : Int) : Except FaceError String :=
  if value = -1 then .ok "-"
  else if value = 0 then .ok "▢"
  else if value = 1 then .ok "+"
  else .error ⟨value⟩

def Die.face (d : Die) (fudge markdown : Bool) : Except FaceError String :=
  if fudge then fudgeFace d.value
  else
    let text := signedNumeral d.value
    .ok (match markdown, d.extreme with
      | true, .highest => "**" ++ text ++ "**"
      | true, .lowest => "_" ++ text ++ "_"
      | _, _ => text)

def Die.shown (d : Die) (fudge markdown : Bool) : Except FaceError String := do
  let face ← d.face fudge markdown
  let shown := if d.exploded then face ++ "!" else face
  return if d.live then shown else "~~" ++ shown ++ "~~"

def HistoryItem.shown (markdown : Bool) : HistoryItem → Except FaceError String
  | .roll term => do
      let dice ← term.dice.mapM fun d => d.shown term.sides.isNone markdown
      return "[" ++ ", ".intercalate dice ++ "]"
  | .value d => return d.text
  | .operator op => return " " ++ op.symbol ++ " "
  | .paren p => return p.symbol

def historyText (history : List HistoryItem) (markdown : Bool) : Except FaceError String := do
  let parts ← history.mapM (HistoryItem.shown markdown)
  return String.join parts

def Total.shown (total : Total) (markdown : Bool) : String :=
  match total with
  | .value d => d.shown markdown
  | .success n =>
      bold (signedNumeral n) markdown ++ if n = 1 then " success" else " successes"

def reasonText (reason : String) (markdown : Bool) : String :=
  if markdown then "`" ++ reason ++ "`" else reason

def SingleResult.line (r : SingleResult) (markdown : Bool) : Except FaceError String := do
  let history ← historyText r.history markdown
  return history ++ " = " ++ r.total.shown markdown

def shownReason? (reason : Option String) : Option String := reason.filter (· ≠ "")

def dropLineEnds (text : String) : String :=
  String.ofList (dropEndWhile (· == '\n') text.toList)

/-- One line for a single result. A repeated one has a line for each roll, then its sum and its
reason if there are any. -/
def Result.render (result : Result) (markdown : Bool) : Except FaceError String := do
  match result with
  | .single r =>
      let line ← r.line markdown
      let reason := match shownReason? r.reason with
        | none => ""
        | some reason => ", Reason: " ++ reasonText reason markdown
      return dropLineEnds (line ++ reason)
  | .repeated r =>
      let lines ← r.rolls.mapM fun roll => roll.line markdown
      let sum := match r.sum with
        | none => []
        | some sum => ["Sum: " ++ sum.shown markdown]
      let reason := match shownReason? r.reason with
        | none => []
        | some reason => ["Reason: " ++ reasonText reason markdown]
      return dropLineEnds (String.join ((lines ++ sum ++ reason).map (· ++ "\n")))

structure Outcome where
  result : Result
  plain : String
  markdown : String
  deriving DecidableEq, Repr

def Result.outcome (result : Result) : Except FaceError Outcome := do
  let plain ← result.render false
  let markdown ← result.render true
  return ⟨result, plain, markdown⟩

end DiceNotation
