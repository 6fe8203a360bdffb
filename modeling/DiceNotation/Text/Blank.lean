/-!
Blanks, which may stand between the words of a command, and the wider class of white space,
which is cut off both ends of a reason.
-/
namespace DiceNotation.Text

def isBlank (c : Char) : Bool := c == ' ' || c == '\t'

/-- The inclusive ranges of the property White_Space of Unicode. -/
def whiteRanges : List (Nat × Nat) :=
  [(0x9, 0xD), (0x20, 0x20), (0x85, 0x85), (0xA0, 0xA0), (0x1680, 0x1680), (0x2000, 0x200A),
   (0x2028, 0x2029), (0x202F, 0x202F), (0x205F, 0x205F), (0x3000, 0x3000)]

def isWhite (c : Char) : Bool :=
  whiteRanges.any fun range => range.1 ≤ c.toNat && c.toNat ≤ range.2

def isSpace (c : Char) : Bool := isWhite c || (0x1C ≤ c.toNat && c.toNat ≤ 0x1F)

def dropEndWhile (p : Char → Bool) (s : List Char) : List Char :=
  (s.reverse.dropWhile p).reverse

def trimStart (s : List Char) : List Char := s.dropWhile isSpace

def trimEnd (s : List Char) : List Char := dropEndWhile isSpace s

def trim (s : List Char) : List Char := trimEnd (trimStart s)

theorem isSpace_of_isBlank {c : Char} (h : isBlank c = true) : isSpace c = true := by
  simp only [isBlank, Bool.or_eq_true, beq_iff_eq] at h
  rcases h with rfl | rfl <;> decide

end DiceNotation.Text
