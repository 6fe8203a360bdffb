import DiceNotation.Grammar.Phrase
import DiceNotation.Grammar.Terminal

/-!
A cursor is a command read up to some word: the phrases that are complete, the parentheses that are
open and the phrase that is being read. `step` reads one more word; the terminals that may come
next are those for which it answers.
-/
namespace DiceNotation.Grammar

structure Pending where
  left : ExprPhrase
  operator : Word
  deriving DecidableEq, Repr

/-- An open parenthesis and what waited for an operand when it was opened. -/
structure Frame where
  pending : Option Pending
  opening : Word
  deriving DecidableEq, Repr

structure Context where
  frames : List Frame
  pending : Option Pending
  deriving DecidableEq, Repr

/-- All operators bind alike: an operand is joined to all that stands on its left. -/
def Context.join (k : Context) (operand : ExprPhrase) : ExprPhrase :=
  match k.pending with
  | none => operand
  | some pending => .binary pending.left pending.operator operand

def DiceHead.addOption (h : DiceHead) (o : OptionPhrase) : DicePhrase :=
  ⟨{ h with options := h.options ++ [o] }, []⟩

def DicePhrase.addClause (d : DicePhrase) (c : ClausePhrase) : DicePhrase :=
  { d with clauses := d.clauses ++ [c] }

inductive Cursor where
  | operand (k : Context)
  | counted (k : Context) (count : Word)
  | marked (k : Context) (count : Option Word) (marker : Word)
  | term (k : Context) (d : DicePhrase)
  | explosion (k : Context) (h : DiceHead) (kind : ModifierKind) (key : Word)
  | option (k : Context) (h : DiceHead) (kind : ModifierKind) (key : Word)
  | target (k : Context) (d : DicePhrase) (key : Word)
  | listOpened (k : Context) (d : DicePhrase) (key opening : Word)
  | listed (k : Context) (d : DicePhrase) (key opening first : Word) (others : List (Word × Word))
  | listComma (k : Context) (d : DicePhrase) (key opening first : Word)
      (others : List (Word × Word)) (comma : Word)
  | doubleTarget (k : Context) (d : DicePhrase) (key : Word)
  | failure (k : Context) (d : DicePhrase) (key : Word)
  | value (k : Context) (e : ExprPhrase)
  | repeating (opening : Word) (inner : ExprPhrase) (closing caret : Word)
  | repeatMode (opening : Word) (inner : ExprPhrase) (closing caret mode : Word)
  | repeated (phrase : RepeatPhrase)
  | reasoned (command : CommandPhrase)
  deriving DecidableEq, Repr

namespace Cursor

def start : Cursor := operand ⟨[], none⟩

def afterOperand (k : Context) (e : ExprPhrase) (t : Terminal) (w : Word) : Option Cursor :=
  match t with
  | .operator => some (operand { k with pending := some ⟨k.join e, w⟩ })
  | .closeParen =>
      match k.frames with
      | [] => none
      | f :: frames => some (value ⟨frames, f.pending⟩ (.group f.opening (k.join e) w))
  | .caret =>
      match k.frames, k.pending, e with
      | [], none, .group opening inner closing => some (repeating opening inner closing w)
      | _, _, _ => none
  | .reason =>
      match k.frames with
      | [] => some (reasoned ⟨.expr (k.join e), some w⟩)
      | _ :: _ => none
  | _ => none

/-- After a dice term: one more option while it has no clause, one more clause while it has fewer
than three, or what may follow any operand. -/
def afterTerm (k : Context) (d : DicePhrase) (t : Terminal) (w : Word) : Option Cursor :=
  let onlyFirst (c : Cursor) : Option Cursor := if d.clauses = [] then some c else none
  let atMostThree (c : Cursor) : Option Cursor := if d.clauses.length < 3 then some c else none
  match t with
  | .explode => onlyFirst (explosion k d.head .explode w)
  | .explodeAll => onlyFirst (explosion k d.head .explodeAll w)
  | .bang => onlyFirst (explosion k d.head .explodeAll w)
  | .reroll => onlyFirst (option k d.head .reroll w)
  | .rerollAll => onlyFirst (option k d.head .rerollAll w)
  | .keepHigh => onlyFirst (option k d.head .keepHigh w)
  | .keepLow => onlyFirst (option k d.head .keepLow w)
  | .dropHigh => onlyFirst (option k d.head .dropHigh w)
  | .dropLow => onlyFirst (option k d.head .dropLow w)
  | .target => atMostThree (target k d w)
  | .doubleTarget => atMostThree (doubleTarget k d w)
  | .failure => atMostThree (failure k d w)
  | t => afterOperand k (.dice d) t w

def step (c : Cursor) (t : Terminal) (w : Word) : Option Cursor :=
  match c with
  | operand k =>
      match t with
      | .count => some (counted k w)
      | .marker => some (marked k none w)
      | .float => some (value k (.float w))
      | .integer => some (value k (.integer w))
      | .openParen => some (operand ⟨⟨k.pending, w⟩ :: k.frames, none⟩)
      | _ => none
  | counted k count =>
      match t with
      | .marker => some (marked k (some count) w)
      | _ => none
  | marked k count marker =>
      match t with
      | .number => some (term k ⟨⟨count, marker, .number w, []⟩, []⟩)
      | .fudge => some (term k ⟨⟨count, marker, .fudge w, []⟩, []⟩)
      | _ => none
  | term k d => afterTerm k d t w
  | explosion k h kind key =>
      match t with
      | .number => some (term k (h.addOption ⟨kind, key, some w⟩))
      | t => afterTerm k (h.addOption ⟨kind, key, none⟩) t w
  | option k h kind key =>
      match t with
      | .number => some (term k (h.addOption ⟨kind, key, some w⟩))
      | _ => none
  | target k d key =>
      match t with
      | .number => some (term k (d.addClause (.target key w)))
      | .openBracket => some (listOpened k d key w)
      | _ => none
  | listOpened k d key opening =>
      match t with
      | .number => some (listed k d key opening w [])
      | .closeBracket => some (term k (d.addClause (.targetList key opening none w)))
      | _ => none
  | listed k d key opening first others =>
      match t with
      | .comma => some (listComma k d key opening first others w)
      | .closeBracket =>
          some (term k (d.addClause (.targetList key opening (some (first, others)) w)))
      | _ => none
  | listComma k d key opening first others comma =>
      match t with
      | .number => some (listed k d key opening first (others ++ [(comma, w)]))
      | _ => none
  | doubleTarget k d key =>
      match t with
      | .number => some (term k (d.addClause (.doubleTarget key w)))
      | _ => none
  | failure k d key =>
      match t with
      | .number => some (term k (d.addClause (.failure key w)))
      | _ => none
  | value k e => afterOperand k e t w
  | repeating opening inner closing caret =>
      match t with
      | .repeatMode => some (repeatMode opening inner closing caret w)
      | .number => some (repeated ⟨opening, inner, closing, caret, none, w⟩)
      | _ => none
  | repeatMode opening inner closing caret mode =>
      match t with
      | .number => some (repeated ⟨opening, inner, closing, caret, some mode, w⟩)
      | _ => none
  | repeated phrase =>
      match t with
      | .reason => some (reasoned ⟨.repeated phrase, some w⟩)
      | _ => none
  | reasoned _ => none

def finishOperand (k : Context) (e : ExprPhrase) : Option CommandPhrase :=
  match k.frames with
  | [] => some ⟨.expr (k.join e), none⟩
  | _ :: _ => none

def finish? : Cursor → Option CommandPhrase
  | term k d => finishOperand k (.dice d)
  | explosion k h kind key => finishOperand k (.dice (h.addOption ⟨kind, key, none⟩))
  | value k e => finishOperand k e
  | repeated phrase => some ⟨.repeated phrase, none⟩
  | reasoned command => some command
  | _ => none

/-- The terminals that may come next. Which word it is makes no difference. -/
def expected (c : Cursor) : List Terminal :=
  Terminal.all.filter fun t => (c.step t ⟨[], []⟩).isSome

end Cursor
end DiceNotation.Grammar
