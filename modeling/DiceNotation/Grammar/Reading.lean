import DiceNotation.Grammar.Cursor

/-!
Reading a command. Each terminal takes its longest lexeme and blanks are skipped before each word.
A text may be read in several ways for a while (`10` is a number, a number of dice and the start of
`10.5`): every way is followed, and when all get stuck, the places that are furthest tell what went
wrong.
-/
namespace DiceNotation.Grammar

open DiceNotation.Text

/-- Where readings of a text got stuck, and the terminals that could have come there. -/
structure Stuck where
  position : Nat
  expected : List Terminal
  deriving DecidableEq, Repr

def Stuck.further (a b : Stuck) : Stuck :=
  if a.position < b.position then b
  else if b.position < a.position then a
  else ⟨a.position, a.expected ++ b.expected⟩

/-- A complete reading counts before one that got stuck. -/
def furthest : Except Stuck CommandPhrase → Except Stuck CommandPhrase →
    Except Stuck CommandPhrase
  | .ok c, _ => .ok c
  | .error _, .ok c => .ok c
  | .error a, .error b => .error (a.further b)

structure Way where
  next : Cursor
  lexeme : List Char
  left : List Char

def wayOf? (c : Cursor) (gap rest : List Char) (t : Terminal) : Option Way := do
  let (lexeme, left) ← t.take? rest
  let next ← c.step t ⟨gap, lexeme⟩
  return ⟨next, lexeme, left⟩

def ways (c : Cursor) (gap rest : List Char) : List Way :=
  Terminal.all.filterMap (wayOf? c gap rest)

theorem wayOf?_eq_some {c : Cursor} {gap rest : List Char} {t : Terminal} {way : Way}
    (h : wayOf? c gap rest t = some way) :
    t.take? rest = some (way.lexeme, way.left) ∧ c.step t ⟨gap, way.lexeme⟩ = some way.next := by
  simp only [wayOf?, Option.bind_eq_bind, Option.bind_eq_some_iff, Option.pure_def,
    Option.some.injEq] at h
  obtain ⟨⟨lexeme, left⟩, took, next, stepped, rfl⟩ := h
  exact ⟨took, stepped⟩

theorem length_left_lt {c : Cursor} {gap rest : List Char} {way : Way}
    (h : way ∈ ways c gap rest) : way.left.length < rest.length := by
  obtain ⟨t, _, found⟩ := List.mem_filterMap.mp h
  exact Terminal.length_lt_of_take? (wayOf?_eq_some found).1

theorem length_dropWhile_le (p : Char → Bool) (s : List Char) :
    (s.dropWhile p).length ≤ s.length := by
  have whole := congrArg List.length (List.takeWhile_append_dropWhile (p := p) (l := s))
  rw [List.length_append] at whole
  omega

def readFrom (c : Cursor) (position : Nat) (s : List Char) : Except Stuck CommandPhrase :=
  let gap := s.takeWhile isBlank
  match s.dropWhile isBlank, c.finish? with
  | [], some command => .ok command
  | _, _ =>
      let here := position + gap.length
      ((ways c gap (s.dropWhile isBlank)).attach.map fun ⟨way, _member⟩ =>
        readFrom way.next (here + way.lexeme.length) way.left).foldl furthest
          (.error ⟨here, c.expected⟩)
termination_by s.length
decreasing_by
  exact Nat.lt_of_lt_of_le (length_left_lt _member) (length_dropWhile_le isBlank s)

theorem readFrom_eq (c : Cursor) (position : Nat) (s : List Char) :
    readFrom c position s =
      match s.dropWhile isBlank, c.finish? with
      | [], some command => .ok command
      | _, _ =>
          let here := position + (s.takeWhile isBlank).length
          ((ways c (s.takeWhile isBlank) (s.dropWhile isBlank)).map fun way =>
            readFrom way.next (here + way.lexeme.length) way.left).foldl furthest
              (.error ⟨here, c.expected⟩) := by
  rw [readFrom]
  simp

def read (s : List Char) : Except Stuck CommandPhrase := readFrom .start 0 s

end DiceNotation.Grammar
