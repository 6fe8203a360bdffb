import DiceNotation.Dice.Modifier
import DiceNotation.Text.Blank

/-!
Phrases: what a command looks like before its numbers are read. A phrase keeps every word of the
text it was read from, with the blanks in front of the word, so that it spells out that text.
-/
namespace DiceNotation

namespace Grammar

open DiceNotation.Text

structure Word where
  gap : List Char
  lexeme : List Char
  deriving DecidableEq, Repr

structure OptionPhrase where
  kind : ModifierKind
  key : Word
  number : Option Word
  deriving DecidableEq, Repr

inductive ClausePhrase where
  | target (key number : Word)
  | targetList (key opening : Word) (entries : Option (Word × List (Word × Word)))
      (closing : Word)
  | doubleTarget (key number : Word)
  | failure (key number : Word)
  deriving DecidableEq, Repr

inductive SidesPhrase where
  | number (word : Word)
  | fudge (word : Word)
  deriving DecidableEq, Repr

structure DiceHead where
  count : Option Word
  marker : Word
  sides : SidesPhrase
  options : List OptionPhrase
  deriving DecidableEq, Repr

structure DicePhrase where
  head : DiceHead
  clauses : List ClausePhrase
  deriving DecidableEq, Repr

inductive ExprPhrase where
  | dice (term : DicePhrase)
  | float (word : Word)
  | integer (word : Word)
  | group (opening : Word) (inner : ExprPhrase) (closing : Word)
  | binary (left : ExprPhrase) (operator : Word) (right : ExprPhrase)
  deriving DecidableEq, Repr

structure RepeatPhrase where
  opening : Word
  inner : ExprPhrase
  closing : Word
  caret : Word
  mode : Option Word
  times : Word
  deriving DecidableEq, Repr

inductive BodyPhrase where
  | expr (expr : ExprPhrase)
  | repeated (phrase : RepeatPhrase)
  deriving DecidableEq, Repr

structure CommandPhrase where
  body : BodyPhrase
  reason : Option Word
  deriving DecidableEq, Repr

def Word.spell (w : Word) : List Char := w.gap ++ w.lexeme

def spellOption (w : Option Word) : List Char := w.elim [] Word.spell

def OptionPhrase.spell (o : OptionPhrase) : List Char := o.key.spell ++ spellOption o.number

def spellEntries : Option (Word × List (Word × Word)) → List Char
  | none => []
  | some (first, others) =>
      first.spell ++ others.flatMap fun (comma, number) => comma.spell ++ number.spell

def ClausePhrase.spell : ClausePhrase → List Char
  | target key number => key.spell ++ number.spell
  | targetList key opening entries closing =>
      key.spell ++ opening.spell ++ spellEntries entries ++ closing.spell
  | doubleTarget key number => key.spell ++ number.spell
  | failure key number => key.spell ++ number.spell

def SidesPhrase.spell : SidesPhrase → List Char
  | number word => word.spell
  | fudge word => word.spell

def DiceHead.spell (h : DiceHead) : List Char :=
  spellOption h.count ++ h.marker.spell ++ h.sides.spell ++ h.options.flatMap OptionPhrase.spell

def DicePhrase.spell (d : DicePhrase) : List Char :=
  d.head.spell ++ d.clauses.flatMap ClausePhrase.spell

def ExprPhrase.spell : ExprPhrase → List Char
  | dice term => term.spell
  | float word => word.spell
  | integer word => word.spell
  | group opening inner closing => opening.spell ++ inner.spell ++ closing.spell
  | binary left operator right => left.spell ++ operator.spell ++ right.spell

def RepeatPhrase.spell (r : RepeatPhrase) : List Char :=
  r.opening.spell ++ r.inner.spell ++ r.closing.spell ++ r.caret.spell ++
    spellOption r.mode ++ r.times.spell

def BodyPhrase.spell : BodyPhrase → List Char
  | expr phrase => phrase.spell
  | repeated phrase => phrase.spell

def CommandPhrase.spell (c : CommandPhrase) : List Char := c.body.spell ++ spellOption c.reason

/-- A spelling without the blanks in front of its first word. -/
def slice (spelling : List Char) : String := String.ofList (spelling.dropWhile isBlank)

end Grammar
end DiceNotation
