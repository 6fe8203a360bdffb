import DiceNotation.Decimal.Text
import DiceNotation.Document.Basic
import DiceNotation.Result.Basic

/-!
Results as documents. Every field is written, and decimals are written as text, which keeps their
digits.
-/
namespace DiceNotation

namespace Document

def ofDecimal (d : Decimal) : Document := .text d.text

def orNull {α : Type} (write : α → Document) : Option α → Document
  | some a => write a
  | none => .null

end Document

open Document

def Die.toDocument (d : Die) : Document :=
  .object [("value", .int d.value), ("origin", .text d.origin.name),
    ("dropped", .bool d.dropped), ("rerolled", .bool d.rerolled),
    ("exploded", .bool d.exploded), ("critic", .text d.extreme.name)]

def RolledTerm.toDocument (t : RolledTerm) : Document :=
  .object [("kind", .text "roll"), ("expression", .text t.expression),
    ("sides", orNull .int t.sides), ("dice", .list (t.dice.map Die.toDocument))]

def HistoryItem.toDocument : HistoryItem → Document
  | roll term => term.toDocument
  | value d => .object [("kind", .text "value"), ("value", ofDecimal d)]
  | operator op => .object [("kind", .text "operator"), ("operator", .text op.symbol)]
  | paren p => .object [("kind", .text "paren"), ("symbol", .text p.symbol)]

def Total.toDocument : Total → Document
  | value d => .object [("kind", .text "value"), ("value", ofDecimal d)]
  | success n => .object [("kind", .text "success"), ("successes", .int n)]

def SingleResult.toDocument (r : SingleResult) : Document :=
  .object [("kind", .text "single"), ("expression", .text r.expression),
    ("history", .list (r.history.map HistoryItem.toDocument)),
    ("total", r.total.toDocument), ("reason", orNull .text r.reason)]

def RepeatedResult.toDocument (r : RepeatedResult) : Document :=
  .object [("kind", .text "repeated"), ("expression", .text r.expression),
    ("rolls", .list (r.rolls.map SingleResult.toDocument)),
    ("combined_total", orNull ofDecimal r.sum), ("sorted", .bool r.sorted),
    ("reason", orNull .text r.reason)]

def Result.toDocument : Result → Document
  | single r => r.toDocument
  | repeated r => r.toDocument

end DiceNotation
