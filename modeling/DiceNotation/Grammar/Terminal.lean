import DiceNotation.Text.Quoted

/-!
The terminals of the command language, how each is taken from the front of a text, and how each is
described to a reader.
-/
namespace DiceNotation.Grammar

open DiceNotation.Text

inductive Terminal where
  | count | marker | fudge | number | float | integer | operator | repeatMode | reason
  | openParen | closeParen | openBracket | closeBracket | comma | caret
  | explode | explodeAll | bang | reroll | rerollAll | keepHigh | keepLow | dropHigh | dropLow
  | target | doubleTarget | failure
  deriving DecidableEq, Repr

namespace Terminal

def all : List Terminal :=
  [count, marker, fudge, number, float, integer, operator, repeatMode, reason,
   openParen, closeParen, openBracket, closeBracket, comma, caret,
   explode, explodeAll, bang, reroll, rerollAll, keepHigh, keepLow, dropHigh, dropLow,
   target, doubleTarget, failure]

theorem mem_all (t : Terminal) : t ∈ all := by cases t <;> decide

def literal? : Terminal → Option (List Char)
  | openParen => some ['(']
  | closeParen => some [')']
  | openBracket => some ['[']
  | closeBracket => some [']']
  | comma => some [',']
  | caret => some ['^']
  | explode => some ['e']
  | explodeAll => some ['i', 'e']
  | bang => some ['!']
  | reroll => some ['r']
  | rerollAll => some ['i', 'r']
  | keepHigh => some ['K']
  | keepLow => some ['k']
  | dropHigh => some ['D']
  | dropLow => some ['d']
  | target => some ['t']
  | doubleTarget => some ['t', 't']
  | failure => some ['f']
  | _ => none

def name : Terminal → String
  | count => "NB_DICE"
  | marker => "ROLL_MARKER"
  | fudge => "FUDGE"
  | number => "NUMBER"
  | float => "FLOAT"
  | integer => "INTEGER"
  | operator => "OPERATOR"
  | repeatMode => "REPEAT_MODE"
  | reason => "REASON"
  | openParen => "LPAR"
  | closeParen => "RPAR"
  | openBracket => "LSQB"
  | closeBracket => "RSQB"
  | comma => "COMMA"
  | caret => "CIRCUMFLEX"
  | explode => "E"
  | explodeAll => "IE"
  | bang => "BANG"
  | reroll => "R"
  | rerollAll => "IR"
  | keepHigh => "K"
  | keepLow => "__ANON_0"
  | dropHigh => "D"
  | dropLow => "__ANON_1"
  | target => "T"
  | doubleTarget => "TT"
  | failure => "F"

def description (t : Terminal) : String :=
  match t.literal? with
  | some spelling => quoted (String.ofList spelling)
  | none => t.name

def describeName (name : String) : String :=
  match all.find? fun t => t.name = name with
  | some t => t.description
  | none => if name = "$END" then "end of input" else name

end Terminal

def dropLiteral? : List Char → List Char → Option (List Char)
  | [], rest => some rest
  | _ :: _, [] => none
  | c :: cs, d :: rest => if c = d then dropLiteral? cs rest else none

def isSign (c : Char) : Bool := c == '+' || c == '-'

def isOperator (c : Char) : Bool := c == '+' || c == '-' || c == '*' || c == '/'

def takeOne? (p : Char → Bool) : List Char → Option (List Char × List Char)
  | [] => none
  | c :: rest => if p c then some ([c], rest) else none

def takeDigits? (s : List Char) : Option (List Char × List Char) :=
  if s.takeWhile Char.isDigit = [] then none
  else some (s.takeWhile Char.isDigit, s.dropWhile Char.isDigit)

def takeSigned? (take? : List Char → Option (List Char × List Char)) :
    List Char → Option (List Char × List Char)
  | [] => none
  | c :: rest =>
      if isSign c then (take? rest).map fun (taken, rest) => (c :: taken, rest)
      else take? (c :: rest)

def takeFixed? (s : List Char) : Option (List Char × List Char) :=
  match takeDigits? s with
  | some (whole, '.' :: c :: rest) =>
      if c.isDigit then
        match takeOne? Char.isDigit rest with
        | some (d, rest) => some (whole ++ '.' :: c :: d, rest)
        | none => some (whole ++ ['.', c], rest)
      else none
  | _ => none

def Terminal.take? (t : Terminal) (s : List Char) : Option (List Char × List Char) :=
  match t.literal? with
  | some spelling => (dropLiteral? spelling s).map fun rest => (spelling, rest)
  | none =>
      match t with
      | .count => match s with
          | [] => none
          | c :: rest =>
              if c.isDigit && c != '0' then
                some (c :: rest.takeWhile Char.isDigit, rest.dropWhile Char.isDigit)
              else none
      | .marker => takeOne? (fun c => c == 'd' || c == 'D') s
      | .fudge => takeOne? (fun c => c == 'F' || c == 'f') s
      | .number => takeDigits? s
      | .float => takeSigned? takeFixed? s
      | .integer => takeSigned? takeDigits? s
      | .operator => takeOne? isOperator s
      | .repeatMode => takeOne? (fun c => c == '+' || c == '#') s
      | .reason => match s with
          | ':' :: rest => some (':' :: rest, [])
          | _ => none
      | _ => none

theorem dropLiteral?_append {cs s rest : List Char} (h : dropLiteral? cs s = some rest) :
    cs ++ rest = s := by
  induction cs generalizing s with
  | nil => simpa [dropLiteral?] using h.symm
  | cons c cs ih =>
    cases s with
    | nil => simp [dropLiteral?] at h
    | cons d s =>
      simp only [dropLiteral?] at h
      split at h
      · rename_i same
        simp [same, ih h]
      · simp at h

theorem takeOne?_append {p : Char → Bool} {s taken rest : List Char}
    (h : takeOne? p s = some (taken, rest)) : taken ≠ [] ∧ taken ++ rest = s := by
  cases s with
  | nil => simp [takeOne?] at h
  | cons c s =>
    simp only [takeOne?] at h
    split at h
    · simp only [Option.some.injEq, Prod.mk.injEq] at h
      simp [← h.1, ← h.2]
    · simp at h

theorem takeDigits?_append {s taken rest : List Char}
    (h : takeDigits? s = some (taken, rest)) : taken ≠ [] ∧ taken ++ rest = s := by
  simp only [takeDigits?] at h
  split at h
  · simp at h
  · rename_i nonempty
    simp only [Option.some.injEq, Prod.mk.injEq] at h
    obtain ⟨rfl, rfl⟩ := h
    exact ⟨nonempty, List.takeWhile_append_dropWhile⟩

theorem takeFixed?_append {s taken rest : List Char}
    (h : takeFixed? s = some (taken, rest)) : taken ≠ [] ∧ taken ++ rest = s := by
  unfold takeFixed? at h
  split at h
  · rename_i whole c left eq
    have parts := (takeDigits?_append eq).2
    split at h
    · split at h
      · rename_i d left' one
        have last := (takeOne?_append one).2
        simp only [Option.some.injEq, Prod.mk.injEq] at h
        obtain ⟨rfl, rfl⟩ := h
        exact ⟨by simp, by simp [← parts, ← last]⟩
      · simp only [Option.some.injEq, Prod.mk.injEq] at h
        obtain ⟨rfl, rfl⟩ := h
        exact ⟨by simp, by simp [← parts]⟩
    · simp at h
  · simp at h

theorem takeSigned?_append {take? : List Char → Option (List Char × List Char)}
    (sound : ∀ {s taken rest}, take? s = some (taken, rest) → taken ≠ [] ∧ taken ++ rest = s)
    {s taken rest : List Char} (h : takeSigned? take? s = some (taken, rest)) :
    taken ≠ [] ∧ taken ++ rest = s := by
  cases s with
  | nil => simp [takeSigned?] at h
  | cons c s =>
    simp only [takeSigned?] at h
    split at h
    · simp only [Option.map_eq_some_iff, Prod.exists, Prod.mk.injEq] at h
      obtain ⟨inner, left, took, rfl, rfl⟩ := h
      simp [(sound took).2]
    · exact sound h

namespace Terminal

theorem take?_append {t : Terminal} {s taken rest : List Char}
    (h : t.take? s = some (taken, rest)) : taken ≠ [] ∧ taken ++ rest = s := by
  cases t <;> simp only [take?, literal?] at h
  case count =>
    cases s with
    | nil => simp at h
    | cons c s =>
      simp only at h
      split at h
      · simp only [Option.some.injEq, Prod.mk.injEq] at h
        simp [← h.1, ← h.2, List.takeWhile_append_dropWhile]
      · simp at h
  case marker => exact takeOne?_append h
  case fudge => exact takeOne?_append h
  case number => exact takeDigits?_append h
  case float => exact takeSigned?_append takeFixed?_append h
  case integer => exact takeSigned?_append takeDigits?_append h
  case operator => exact takeOne?_append h
  case repeatMode => exact takeOne?_append h
  case reason =>
    split at h
    · simp only [Option.some.injEq, Prod.mk.injEq] at h
      simp [← h.1, ← h.2]
    · simp at h
  all_goals
    simp only [Option.map_eq_some_iff, Prod.mk.injEq] at h
    obtain ⟨left, dropped, rfl, rfl⟩ := h
    exact ⟨by simp, dropLiteral?_append dropped⟩

theorem length_lt_of_take? {t : Terminal} {s taken rest : List Char}
    (h : t.take? s = some (taken, rest)) : rest.length < s.length := by
  obtain ⟨nonempty, whole⟩ := take?_append h
  have := List.length_pos_iff.mpr nonempty
  rw [← whole, List.length_append]
  omega

end Terminal
end DiceNotation.Grammar
