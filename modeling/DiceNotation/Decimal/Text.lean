import DiceNotation.Decimal.Basic
import DiceNotation.Text.Blank

/-!
The written form of decimals. Powers of ten stand behind an `E` when the exponent is positive or
more than five zeros would follow the point; any other decimal is written out in places.
-/
namespace DiceNotation

open Text

namespace Decimal

def placed (digits : List Char) (place : Int) : List Char :=
  if place ≤ 0 then '0' :: '.' :: List.replicate (-place).toNat '0' ++ digits
  else if (digits.length : Int) ≤ place then
    digits ++ List.replicate (place - digits.length).toNat '0'
  else digits.take place.toNat ++ '.' :: digits.drop place.toNat

def textChars (d : Decimal) : List Char :=
  let digits := numeral d.coefficient
  let place := d.exponent + digits.length
  let magnitude :=
    if d.exponent ≤ 0 ∧ -6 < place then placed digits place
    else
      let power := place - 1
      let shown := (if power < 0 then '-' else '+') :: numeral power.natAbs
      placed digits 1 ++ 'E' :: shown
  if d.negative then '-' :: magnitude else magnitude

def text (d : Decimal) : String := String.ofList d.textChars

inductive Numeric where
  | finite (d : Decimal)
  | infinite
  | undefined
  deriving DecidableEq, Repr

def maxTextExponent : Int := 999999999999999999

def minTextExponent : Int := -1999999999999999997

def splitSign : List Char → Bool × List Char
  | '-' :: rest => (true, rest)
  | '+' :: rest => (false, rest)
  | rest => (false, rest)

def readExponent? : List Char → Option Int
  | [] => some 0
  | c :: rest =>
      let (negative, digits) := splitSign rest
      if c.toLower = 'e' ∧ digits ≠ [] ∧ digits.all Char.isDigit then
        some (if negative then -(numeralValue digits : Int) else numeralValue digits)
      else none

def readFinite? (negative : Bool) (s : List Char) : Option Decimal :=
  let whole := s.takeWhile Char.isDigit
  let rest := s.dropWhile Char.isDigit
  let (places, rest) := match rest with
    | '.' :: rest => (rest.takeWhile Char.isDigit, rest.dropWhile Char.isDigit)
    | rest => ([], rest)
  if whole = [] ∧ places = [] then none
  else do
    let power ← readExponent? rest
    let d : Decimal := ⟨negative, numeralValue (whole ++ places), power - places.length⟩
    let first := if d.coefficient = 0 then d.exponent else d.adjusted
    if first ≤ maxTextExponent ∧ minTextExponent ≤ d.exponent then some d else none

/-- Reads a numeric text. White space around it and underscores in it do not count, and digits of
every script do. -/
def readNumeric? (s : List Char) : Option Numeric := do
  let plain ← ((trim s).filter (· != '_')).mapM fun c =>
    if c.toNat < 0x80 then some c else asciiDigit? c
  let (negative, magnitude) := splitSign plain
  let word := magnitude.map Char.toLower
  if word = ['i', 'n', 'f'] ∨ word = "infinity".toList then some .infinite
  else
    let payload? := match word with
      | 's' :: 'n' :: 'a' :: 'n' :: rest => some rest
      | 'n' :: 'a' :: 'n' :: rest => some rest
      | _ => none
    match payload? with
    | some payload => if payload.all Char.isDigit then some .undefined else none
    | none => (readFinite? negative magnitude).map .finite

def ofText? (s : String) : Option Decimal :=
  match readNumeric? s.toList with
  | some (.finite d) => some d
  | _ => none

end Decimal
end DiceNotation
