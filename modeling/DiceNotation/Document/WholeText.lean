import DiceNotation.Document.Checked
import DiceNotation.Text.Blank
import DiceNotation.Text.Numeral

/-!
Whole numbers as text. A text is brought into plain form, in which it is read: white space around
it, a plus sign, zeros in front, a fraction of zeros and underscores between digits do not count.
-/
namespace DiceNotation.WholeText

open Text

def maxDigits : Nat := 4300

def isPadding (c : Char) : Bool := c == '0' || c == '_'

/-- Drops the zeros in front of a digit or of a minus sign. Where nothing or a fraction follows,
one zero stays, and no underscore may stand last. -/
def dropZeros? : List Char → Option (List Char)
  | '0' :: rest =>
      match rest.dropWhile isPadding with
      | c :: left =>
          if c.isDigit || c == '-' then some (c :: left)
          else if c == '.' then lastZero? rest (c :: left)
          else none
      | [] => lastZero? rest []
  | c :: rest => if c.isDigit || c == '-' then some (c :: rest) else none
  | [] => none
where
  lastZero? (rest left : List Char) : Option (List Char) :=
    if (rest.takeWhile isPadding).getLast? = some '_' then none else some ('0' :: left)

def unpadded? : List Char → Option (List Char)
  | '+' :: '-' :: _ => none
  | '+' :: rest => dropZeros? rest
  | '-' :: rest => (dropZeros? rest).map ('-' :: ·)
  | s => dropZeros? s

def dropFraction (s : List Char) : List Char :=
  match s.dropWhile (· != '.') with
  | _ :: '0' :: zeros => if zeros.all (· == '0') then s.takeWhile (· != '.') else s
  | _ => s

def apart : List Char → Bool
  | [] => true
  | ['_'] => false
  | '_' :: '_' :: _ => false
  | _ :: rest => apart rest

def dropUnderscores (s : List Char) : List Char :=
  if apart s then s.filter (· != '_') else s

def readPlain (s : List Char) : Checked Nat :=
  let digits := s.takeWhile Char.isDigit
  if s = ['0'] then .ok 0
  else if s.head? = some '0' then .fail .intUnreadable
  else if maxDigits < digits.length then .fail .intTooLong
  else if s = [] ∨ digits ≠ s then .fail .intUnreadable
  else .ok (numeralValue digits)

/-- Reads a whole number. One that is too long counts as too long whatever follows its digits. -/
def read (s : List Char) : Checked Int :=
  match unpadded? (dropEndWhile isWhite (s.dropWhile isWhite)) with
  | none => .fail .intUnreadable
  | some unpadded =>
      match dropUnderscores (dropFraction unpadded) with
      | '-' :: digits => (readPlain digits).map fun (n : Nat) => -(n : Int)
      | digits => (readPlain digits).map Int.ofNat

end DiceNotation.WholeText
