import DiceNotation.Text.Printable

/-!
Quoted texts, as error messages show them: the text stands between quotes, and what would end the
quotes or not print is escaped.
-/
namespace DiceNotation.Text

def apostrophe : Char := '\x27'

def quoteFor (s : List Char) : Char :=
  if s.contains apostrophe && !s.contains '"' then '"' else apostrophe

def hex (width n : Nat) : List Char :=
  let digits := Nat.toDigits 16 n
  List.replicate (width - digits.length) '0' ++ digits

def escape (quote c : Char) : List Char :=
  if c = quote || c = '\\' then ['\\', c]
  else if c = '\n' then ['\\', 'n']
  else if c = '\r' then ['\\', 'r']
  else if c = '\t' then ['\\', 't']
  else if isPrintable c then [c]
  else if c.toNat < 0x100 then '\\' :: 'x' :: hex 2 c.toNat
  else if c.toNat < 0x10000 then '\\' :: 'u' :: hex 4 c.toNat
  else '\\' :: 'U' :: hex 8 c.toNat

def quotedChars (s : List Char) : List Char :=
  let quote := quoteFor s
  quote :: s.flatMap (escape quote) ++ [quote]

def quoted (s : String) : String := String.ofList (quotedChars s.toList)

end DiceNotation.Text
