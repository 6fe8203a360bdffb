import DiceNotation.Command.Fault
import DiceNotation.Limits

/-!
Building a command from its phrases. Numbers are read from the inside out and from left to right,
and bounds are checked as soon as the numbers of a phrase are known, so the first fault met in that
order is the one that is reported.
-/
namespace DiceNotation

open Text Grammar

/-- The longest numeral that is read, zeros in front included. -/
def maxNumeralDigits : Nat := 4300

def readNumeral (rule : NumeralRule) (digits : List Char) : Except BuildError Nat :=
  if maxNumeralDigits < digits.length then .error (.longNumeral rule digits.length)
  else .ok (numeralValue digits)

def readInteger (lexeme : List Char) : Except BuildError Int := do
  let (negative, digits) := match lexeme with
    | '-' :: digits => (true, digits)
    | '+' :: digits => (false, digits)
    | digits => (false, digits)
  let magnitude ← readNumeral .integer digits
  return if negative then -(magnitude : Int) else magnitude

def readFixed (lexeme : List Char) : Decimal :=
  let (negative, digits) := match lexeme with
    | '-' :: digits => (true, digits)
    | '+' :: digits => (false, digits)
    | digits => (false, digits)
  let whole := digits.takeWhile Char.isDigit
  let places := (digits.dropWhile Char.isDigit).drop 1
  ⟨negative, numeralValue (whole ++ places), -places.length⟩

def readOperator (lexeme : List Char) : Operator :=
  match lexeme with
  | ['-'] => .sub
  | ['*'] => .mul
  | ['/'] => .div
  | _ => .add

def readMode (mode : Option Word) : RepeatMode :=
  match mode.map Word.lexeme with
  | some ['+'] => .sum
  | some _ => .sort
  | none => .plain

def Grammar.OptionPhrase.build (o : OptionPhrase) : Except BuildError Modifier := do
  match o.number with
  | none => return ⟨o.kind, none⟩
  | some number =>
      let value ← readNumeral (.modifier o.kind) number.lexeme
      return ⟨o.kind, some (value : Int)⟩

inductive Clause where
  | target (threshold : Nat)
  | targetList (values : List Nat)
  | doubleTarget (threshold : Nat)
  | failure (threshold : Nat)
  deriving DecidableEq, Repr

def Clause.kind : Clause → ClauseKind
  | target _ => .target
  | targetList _ => .target
  | doubleTarget _ => .doubleTarget
  | failure _ => .failure

def Grammar.ClausePhrase.build : ClausePhrase → Except BuildError Clause
  | .target _ number => return .target (← readNumeral .target number.lexeme)
  | .targetList _ _ none _ => .error (.fault .emptyTargetList)
  | .targetList _ _ (some (first, others)) _ => do
      let values ← (first :: others.map Prod.snd).mapM fun w => readNumeral .targetList w.lexeme
      return .targetList values
  | .doubleTarget _ number => return .doubleTarget (← readNumeral .doubleTarget number.lexeme)
  | .failure _ number => return .failure (← readNumeral .failure number.lexeme)

def duplicateKind? (seen : List ClauseKind) : List Clause → Option ClauseKind
  | [] => none
  | c :: rest => if c.kind ∈ seen then some c.kind else duplicateKind? (c.kind :: seen) rest

/-- The values in order, each once. -/
def distinctValues (values : List Nat) : List Int :=
  ((values.map Int.ofNat).mergeSort (· ≤ ·)).eraseDups

/-- A threshold of zero is the same as no clause. -/
def Scoring.add (s : Scoring) : Clause → Scoring
  | .target n => if n = 0 then s else { s with target := some (n : Int) }
  | .targetList values => { s with targetValues := some (distinctValues values) }
  | .doubleTarget n => if n = 0 then s else { s with doubleTarget := some (n : Int) }
  | .failure n => if n = 0 then s else { s with failure := some (n : Int) }

def Scoring.ofClauses (clauses : List Clause) (text : String) :
    Except BuildError (Option Scoring) :=
  match duplicateKind? [] clauses with
  | some kind => .error (.fault (.duplicateClause kind text))
  | none =>
      let isList (c : Clause) : Bool := match c with
        | .targetList _ => true
        | _ => false
      if clauses.any isList && clauses.any (·.kind = .doubleTarget) then
        .error (.fault (.listWithDoubleTarget text))
      else
        let scoring := clauses.foldl Scoring.add .empty
        .ok (if scoring = .empty then none else some scoring)

/-- A term whose numbers have been read. Modifiers and clauses of fudge dice have no effect. -/
def DiceTerm.assemble (limits : Limits) (count : Nat) (sides : Option Nat)
    (modifiers : List Modifier) (clauses : List Clause) (text : String) :
    Except BuildError DiceTerm :=
  if limits.maxDice < (count : Int) then .error (.fault (.tooManyDice count limits.maxDice))
  else match sides with
    | none => .ok ⟨count, none, [], none, text⟩
    | some sides =>
        if sides = 0 then .error (.fault (.noSides text))
        else if limits.maxSides < (sides : Int) then
          .error (.fault (.tooManySides sides limits.maxSides))
        else (Scoring.ofClauses clauses text).map fun scoring =>
          ⟨count, some (sides : Int), modifiers, scoring, text⟩

def readCount : Option Word → Except BuildError Nat
  | none => .ok 1
  | some word => readNumeral .dice word.lexeme

def readSides : SidesPhrase → Except BuildError (Option Nat)
  | .fudge _ => .ok none
  | .number word => (readNumeral .dice word.lexeme).map some

def Grammar.DicePhrase.build (limits : Limits) (d : DicePhrase) : Except BuildError DiceTerm := do
  let modifiers ← d.head.options.mapM Grammar.OptionPhrase.build
  let clauses ← d.clauses.mapM Grammar.ClausePhrase.build
  let count ← readCount d.head.count
  let sides ← readSides d.head.sides
  DiceTerm.assemble limits count sides modifiers clauses (slice d.spell)

def Grammar.ExprPhrase.build (limits : Limits) : ExprPhrase → Except BuildError Expression
  | .dice term => return .dice (← term.build limits)
  | .float word => return .float (readFixed word.lexeme)
  | .integer word => return .integer (← readInteger word.lexeme)
  | .group _ inner _ => return .group (← inner.build limits)
  | .binary left operator right => do
      let left ← left.build limits
      let right ← right.build limits
      return .binary (readOperator operator.lexeme) left right

def Repetition.assemble (limits : Limits) (inner : Expression) (times : Nat) (mode : RepeatMode)
    (text : String) : Except BuildError Repetition :=
  if times = 0 then .error (.fault .noRepetition)
  else if limits.maxRepeat < (times : Int) then
    .error (.fault (.tooManyRepetitions times limits.maxRepeat))
  else .ok ⟨inner, times, mode, text⟩

def Grammar.RepeatPhrase.build (limits : Limits) (r : RepeatPhrase) :
    Except BuildError Repetition := do
  let inner ← r.inner.build limits
  let times ← readNumeral .repetition r.times.lexeme
  Repetition.assemble limits inner times (readMode r.mode) (slice r.inner.spell)

def Grammar.BodyPhrase.build (limits : Limits) : BodyPhrase → Except BuildError Body
  | .expr phrase => return .once (← phrase.build limits)
  | .repeated phrase => return .repeated (← phrase.build limits)

def Grammar.CommandPhrase.build (limits : Limits) (c : CommandPhrase) :
    Except BuildError Command := do
  let body ← c.body.build limits
  let reason := c.reason.map fun word => String.ofList (trim (word.lexeme.drop 1))
  return ⟨body, reason, slice c.body.spell⟩

def Command.parse (text : String) (limits : Limits) : Except BuildError Command :=
  match read text.toList with
  | .error place => .error (.stuck text place)
  | .ok phrase => phrase.build limits

end DiceNotation
