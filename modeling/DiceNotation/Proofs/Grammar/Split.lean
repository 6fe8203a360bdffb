import DiceNotation.Proofs.Grammar.Run
import Mathlib.Data.List.TakeWhile

/-!
Splits of a text into words that a cursor accepts. What comes next in a text decides which terminal
a word belongs to and where the word ends, except that blanks at the end of a reason may be left
out of it.
-/
namespace DiceNotation.Grammar

open DiceNotation.Text

namespace Cursor

def behindOperand : List Terminal := [.operator, .closeParen, .caret, .reason]

def behindTerm : List Terminal :=
  [.explode, .explodeAll, .bang, .reroll, .rerollAll, .keepHigh, .keepLow, .dropHigh, .dropLow,
   .target, .doubleTarget, .failure] ++ behindOperand

def admits : Cursor → List Terminal
  | operand _ => [.count, .marker, .float, .integer, .openParen]
  | counted _ _ => [.marker]
  | marked _ _ _ => [.number, .fudge]
  | term _ _ => behindTerm
  | explosion _ _ _ _ => .number :: behindTerm
  | option _ _ _ _ => [.number]
  | target _ _ _ => [.number, .openBracket]
  | listOpened _ _ _ _ => [.number, .closeBracket]
  | listed _ _ _ _ _ _ => [.comma, .closeBracket]
  | listComma _ _ _ _ _ _ _ => [.number]
  | doubleTarget _ _ _ => [.number]
  | failure _ _ _ => [.number]
  | value _ _ => behindOperand
  | repeating _ _ _ _ => [.repeatMode, .number]
  | repeatMode _ _ _ _ _ => [.number]
  | repeated _ => [.reason]
  | reasoned _ => []

variable {c next : Cursor} {t u : Terminal} {w : Word}

theorem mem_behindOperand {k : Context} {e : ExprPhrase} (h : afterOperand k e t w = some next) :
    t ∈ behindOperand := by
  cases t <;> first | decide | simp [afterOperand] at h

theorem mem_behindTerm {k : Context} {d : DicePhrase} (h : afterTerm k d t w = some next) :
    t ∈ behindTerm := by
  cases t <;> first | decide | simp [afterTerm, afterOperand] at h

theorem mem_admits (h : c.step t w = some next) : t ∈ c.admits := by
  cases c with
  | term k d => exact mem_behindTerm h
  | value k e => exact mem_behindOperand h
  | explosion k head kind key =>
    by_cases number : t = .number
    · simp [admits, number]
    · rw [step_explosion number] at h
      exact List.mem_cons_of_mem _ (mem_behindTerm h)
  | _ => cases t <;> simp [step, admits] at h ⊢

theorem step_count (h : c.step .count w = some next) : ∃ k, next = counted k w := by
  cases c <;> simp [step, afterTerm, afterOperand] at h
  exact ⟨_, h.symm⟩

theorem step_integer (h : c.step .integer w = some next) : ∃ k, next = value k (.integer w) := by
  cases c <;> simp [step, afterTerm, afterOperand] at h
  exact ⟨_, h.symm⟩

theorem step_target (h : c.step .target w = some next) : ∃ k d, next = target k d w := by
  cases c <;> simp [step, afterTerm, afterOperand] at h
  all_goals exact ⟨_, _, h.2.symm⟩

/-- Behind a reason nothing can come, and the reason may be any word. -/
theorem step_reason (h : c.step .reason w = some next) :
    ∃ body, next = reasoned ⟨body, some w⟩ ∧
      ∀ v, c.step .reason v = some (reasoned ⟨body, some v⟩) := by
  have operand {k : Context} {e : ExprPhrase} (h : afterOperand k e .reason w = some next) :
      ∃ body, next = reasoned ⟨body, some w⟩ ∧
        ∀ v, afterOperand k e .reason v = some (reasoned ⟨body, some v⟩) := by
    obtain ⟨frames, pending⟩ := k
    cases frames with
    | nil => exact ⟨_, (Option.some.inj h).symm, fun _ => rfl⟩
    | cons f frames => cases h
  cases c with
  | term k d => exact operand h
  | explosion k head kind key => exact operand h
  | value k e => exact operand h
  | repeated phrase => exact ⟨_, (Option.some.inj h).symm, fun _ => rfl⟩
  | _ => cases h

theorem no_digit_behind (h : c.step t w = some next) (ends : t.endsInDigits = true) :
    ∀ u ∈ next.admits, ∀ x ∈ u.firsts, x.isDigit = false := by
  have known : next.admits ∈
      [[.marker], behindOperand, behindTerm, [.comma, .closeBracket], [.reason]] := by
    cases c <;> cases t <;> simp [step, afterTerm, afterOperand, Terminal.endsInDigits] at h ends
    all_goals simp [← h, admits]
  have none : [[.marker], behindOperand, behindTerm, [.comma, .closeBracket], [.reason]].all
      (fun terminals => terminals.all fun u => u.firsts.all fun x => !x.isDigit) = true := by decide
  intro u admitted x first
  have behind := List.all_eq_true.mp (List.all_eq_true.mp none _ known) u admitted
  simpa using List.all_eq_true.mp behind x first

def alike : List (Terminal × Terminal) :=
  [(.count, .float), (.count, .integer), (.float, .integer), (.target, .doubleTarget),
   (.explodeAll, .rerollAll)]

def admitted : List (List Terminal) :=
  [[.count, .marker, .float, .integer, .openParen], [.marker], [.number, .fudge], behindTerm,
   .number :: behindTerm, [.number], [.number, .openBracket], [.number, .closeBracket],
   [.comma, .closeBracket], behindOperand, [.repeatMode, .number], [.reason], []]

theorem admits_mem (c : Cursor) : c.admits ∈ admitted := by
  cases c <;> simp [admits, admitted]

theorem alike_of_firsts {x : Char} (ht : t ∈ c.admits) (hu : u ∈ c.admits) (different : t ≠ u)
    (first : x ∈ t.firsts) (other : x ∈ u.firsts) : (t, u) ∈ alike ∨ (u, t) ∈ alike := by
  have all : admitted.all (fun terminals => terminals.all fun t => terminals.all fun u =>
      t == u || t.firsts.all (fun x => !u.firsts.contains x) || alike.contains (t, u) ||
        alike.contains (u, t)) = true := by
    decide
  have here := List.all_eq_true.mp (List.all_eq_true.mp all c.admits c.admits_mem) t ht
  have pair := List.all_eq_true.mp here u hu
  simp only [Bool.or_eq_true, beq_iff_eq, List.contains_iff_mem] at pair
  rcases pair with ((same | apart) | known) | known
  · exact absurd same different
  · have absent := List.all_eq_true.mp apart x first
    simp [other] at absent
  · exact .inl known
  · exact .inr known

end Cursor

/-- A text is split into words that a cursor accepts, up to the blanks behind the last word. -/
structure Splits (c : Cursor) (s : List Char) (tokens : List Token) (blanks : List Char) :
    Prop where
  fits : ∀ t ∈ tokens, t.Fits
  blank : ∀ x ∈ blanks, isBlank x = true
  spelled : s = spellTokens tokens ++ blanks
  accepted : (c.accepts tokens).isSome

namespace Splits

variable {c : Cursor} {s blanks : List Char} {t : Token} {tokens : List Token}

theorem dropWhile_blank {gap rest : List Char} (h : ∀ x ∈ gap, isBlank x = true)
    (stop : ∀ x ∈ rest.head?, isBlank x = false) :
    (gap ++ rest).takeWhile isBlank = gap ∧ (gap ++ rest).dropWhile isBlank = rest := by
  rw [List.takeWhile_append_of_pos h, List.dropWhile_append_of_pos h]
  cases rest with
  | nil => simp
  | cons x rest => simp [stop x rfl]

theorem nil (h : Splits c s [] blanks) :
    (∀ x ∈ s, isBlank x = true) ∧ c.finish?.isSome = true := by
  refine ⟨?_, h.accepted⟩
  rw [h.spelled]
  exact h.blank

theorem cons (h : Splits c s (t :: tokens) blanks) :
    ∃ next rest, c.step t.terminal t.word = some next ∧ Splits next rest tokens blanks ∧
      s = t.word.gap ++ (t.word.lexeme ++ rest) := by
  obtain ⟨fits, blank, spelled, accepted⟩ := h
  rw [List.forall_mem_cons] at fits
  obtain ⟨command, read⟩ := Option.isSome_iff_exists.mp accepted
  obtain ⟨last, ran, finished⟩ := Option.bind_eq_some_iff.mp read
  obtain ⟨next, stepped, ran⟩ := Option.bind_eq_some_iff.mp ran
  refine ⟨next, spellTokens tokens ++ blanks, stepped, ⟨fits.2, blank, rfl, ?_⟩, ?_⟩
  · simp [Cursor.accepts, ran, finished]
  · simp [spelled, spellTokens, Token.spell, Word.spell]

theorem gap_eq {w : Word} {terminal : Terminal} (fits : w.Fits terminal) (rest : List Char) :
    (w.gap ++ (w.lexeme ++ rest)).takeWhile isBlank = w.gap ∧
      (w.gap ++ (w.lexeme ++ rest)).dropWhile isBlank = w.lexeme ++ rest := by
  obtain ⟨x, more, eq, first⟩ := fits.2.head
  refine dropWhile_blank fits.1 ?_
  simp [eq, Terminal.isBlank_of_mem_firsts first]

theorem first (h : Splits c s tokens blanks) :
    (s.dropWhile isBlank = [] ∧ c.finish?.isSome = true) ∨
      ∃ x rest, s.dropWhile isBlank = x :: rest ∧ ∃ t ∈ c.admits, x ∈ t.firsts := by
  cases tokens with
  | nil =>
    obtain ⟨blank, finished⟩ := h.nil
    exact .inl ⟨List.dropWhile_eq_nil_iff.mpr blank, finished⟩
  | cons t tokens =>
    obtain ⟨next, rest, stepped, _, spelled⟩ := h.cons
    have fits := h.fits t (by simp)
    obtain ⟨x, more, eq, first⟩ := fits.2.head
    refine .inr ⟨x, more ++ rest, ?_, t.terminal, Cursor.mem_admits stepped, first⟩
    rw [spelled, (gap_eq fits rest).2, eq]
    rfl

theorem head (h : Splits c s tokens blanks) {x : Char} (start : x ∈ s.head?) :
    isBlank x = true ∨ ∃ t ∈ c.admits, x ∈ t.firsts := by
  cases blank : isBlank x with
  | true => exact .inl rfl
  | false =>
    cases s with
    | nil => cases start
    | cons y s =>
      obtain rfl : y = x := by simpa using start
      rcases h.first with ⟨empty, _⟩ | ⟨y, rest, eq, t, admitted, first⟩
      · simp [blank] at empty
      · simp only [List.dropWhile_cons, blank, Bool.false_eq_true, if_false, List.cons.injEq] at eq
        exact .inr ⟨t, admitted, eq.1 ▸ first⟩

theorem greedy {next : Cursor} {rest : List Char} (fits : t.Fits)
    (stepped : c.step t.terminal t.word = some next) (behind : Splits next rest tokens blanks)
    (other : t.terminal ≠ .reason) :
    t.terminal.take? (t.word.lexeme ++ rest) = some (t.word.lexeme, rest) := by
  refine Terminal.take?_of_matches other fits.2 ?_
  intro ends x start
  rcases behind.head start with blank | ⟨u, admitted, first⟩
  · simp only [isBlank, Bool.or_eq_true, beq_iff_eq] at blank
    rcases blank with rfl | rfl <;> decide
  · exact Cursor.no_digit_behind stepped ends u admitted x first

theorem not_point (h : Splits c s tokens blanks) : s.head? ≠ some '.' := by
  intro point
  have absent : Terminal.all.all (fun t => !t.firsts.contains '.') = true := by decide
  rcases h.head point with blank | ⟨t, _, first⟩
  · revert blank
    decide
  · have none := List.all_eq_true.mp absent t t.mem_all
    simp [first] at none

theorem not_alike {n n' : Cursor} {t u : Terminal} {w w' : Word} {r r' d d' : List Char}
    {tokens tokens' : List Token} (pair : (t, u) ∈ Cursor.alike)
    (took : t.take? s = some (w.lexeme, r)) (took' : u.take? s = some (w'.lexeme, r'))
    (stepped : c.step t w = some n) (stepped' : c.step u w' = some n')
    (h : Splits n r tokens d) (h' : Splits n' r' tokens' d') : False := by
  simp only [Cursor.alike, List.mem_cons, Prod.mk.injEq, List.not_mem_nil, or_false] at pair
  rcases pair with ⟨rfl, rfl⟩ | ⟨rfl, rfl⟩ | ⟨rfl, rfl⟩ | ⟨rfl, rfl⟩ | ⟨rfl, rfl⟩
  -- Digits that start a dice count and a number with a point are followed by that point.
  · exact h.not_point (Terminal.take?_integer_of_float took' (Terminal.take?_integer_of_count took))
  -- A count and an integer end at the same place; one needs a marker there, the other what follows
  -- an operand.
  · have same := Terminal.take?_integer_of_count took
    rw [took'] at same
    obtain rfl : r' = r := by simpa using congrArg (Option.map Prod.snd) same
    obtain ⟨k, rfl⟩ := Cursor.step_count stepped
    obtain ⟨k', rfl⟩ := Cursor.step_integer stepped'
    have apart : Cursor.behindOperand.all (fun t => t.firsts.all fun x =>
        !Terminal.marker.firsts.contains x) = true := by decide
    rcases h.first with ⟨_, finished⟩ | ⟨x, rest, eq, t, marker, first⟩
    · cases finished
    · obtain rfl : t = .marker := by simpa [Cursor.admits] using marker
      rcases h'.first with ⟨empty, _⟩ | ⟨y, rest', eq', u, operand, other⟩
      · simp [eq] at empty
      · obtain rfl : x = y := by simpa [eq] using congrArg List.head? eq'
        have none := List.all_eq_true.mp (List.all_eq_true.mp apart u operand) x other
        simp [first] at none
  · exact h'.not_point (Terminal.take?_integer_of_float took took')
  -- Behind one t a number must follow, not the second t.
  · have one : w.lexeme = ['t'] := Terminal.matches_of_take? took
    have two : w'.lexeme = ['t', 't'] := Terminal.matches_of_take? took'
    have whole := (Terminal.take?_append took).2.trans (Terminal.take?_append took').2.symm
    obtain rfl : r = 't' :: r' := by simpa [one, two] using whole
    obtain ⟨k, term, rfl⟩ := Cursor.step_target stepped
    have apart : [Terminal.number, .openBracket].all (fun t => !t.firsts.contains 't') = true := by
      decide
    rcases h.head rfl with blank | ⟨t, number, first⟩
    · revert blank
      decide
    · have none := List.all_eq_true.mp apart t number
      simp [first] at none
  · have one : w.lexeme = ['i', 'e'] := Terminal.matches_of_take? took
    have two : w'.lexeme = ['i', 'r'] := Terminal.matches_of_take? took'
    have whole := (Terminal.take?_append took).2.trans (Terminal.take?_append took').2.symm
    simp [one, two] at whole

theorem terminal_unique {t u : Token} {tokens tokens' : List Token} {d d' : List Char}
    (h : Splits c s (t :: tokens) d) (h' : Splits c s (u :: tokens') d') :
    t.terminal = u.terminal := by
  by_contra different
  obtain ⟨n, r, stepped, behind, spelled⟩ := h.cons
  obtain ⟨n', r', stepped', behind', spelled'⟩ := h'.cons
  have fits := h.fits t (by simp)
  have fits' := h'.fits u (by simp)
  have same : t.word.lexeme ++ r = u.word.lexeme ++ r' := by
    rw [← (gap_eq fits r).2, ← (gap_eq fits' r').2, ← spelled, ← spelled']
  obtain ⟨x, more, eq, first⟩ := fits.2.head
  obtain ⟨y, more', eq', other⟩ := fits'.2.head
  obtain rfl : x = y := by
    have heads := congrArg List.head? same
    simpa [eq, eq'] using heads
  have admitted := Cursor.mem_admits stepped
  have admitted' := Cursor.mem_admits stepped'
  have pair := Cursor.alike_of_firsts admitted admitted' different first other
  -- A reason starts like no other terminal.
  have plain : t.terminal ≠ .reason ∧ u.terminal ≠ .reason := by
    constructor <;> intro reason <;> rw [reason] at pair <;> revert pair <;> simp [Cursor.alike]
  have took := greedy fits stepped behind plain.1
  have took' := greedy fits' stepped' behind' plain.2
  rw [← same] at took'
  rcases pair with pair | pair
  · exact not_alike pair took took' stepped stepped' behind behind'
  · exact not_alike pair took' took stepped' stepped behind' behind

end Splits

def Token.absorb (blanks : List Char) (t : Token) : Token :=
  if t.terminal = .reason then ⟨t.terminal, ⟨t.word.gap, t.word.lexeme ++ blanks⟩⟩ else t

namespace Splits

variable {c : Cursor} {s : List Char} {tokens tokens' : List Token} {d d' : List Char}

theorem nil_of_reason {body : BodyPhrase} {w : Word} {rest : List Char}
    (h : Splits (.reasoned ⟨body, some w⟩) rest tokens d) : tokens = [] ∧ rest = d := by
  cases tokens with
  | nil => exact ⟨rfl, h.spelled⟩
  | cons t tokens =>
    obtain ⟨next, _, stepped, _⟩ := h.cons
    cases stepped

theorem nil_of_blank (h : Splits c s tokens d) (blank : ∀ x ∈ s, isBlank x = true) :
    tokens = [] := by
  cases tokens with
  | nil => rfl
  | cons t tokens =>
    obtain ⟨next, rest, _, _, spelled⟩ := h.cons
    obtain ⟨x, more, eq, first⟩ := (h.fits t (by simp)).2.head
    have dark := blank x (by simp [spelled, eq])
    rw [Terminal.isBlank_of_mem_firsts first] at dark
    cases dark

/-- There is one way to split a text into words that a cursor accepts. -/
theorem unique (h : Splits c s tokens d) (h' : Splits c s tokens' d') :
    tokens.map (Token.absorb d) = tokens'.map (Token.absorb d') := by
  induction tokens generalizing c s tokens' with
  | nil =>
    rw [h'.nil_of_blank h.nil.1]
    rfl
  | cons t tokens ih =>
    cases tokens' with
    | nil => cases h.nil_of_blank h'.nil.1
    | cons u tokens' =>
      have terminal := terminal_unique h h'
      obtain ⟨n, r, stepped, behind, spelled⟩ := h.cons
      obtain ⟨n', r', stepped', behind', spelled'⟩ := h'.cons
      have fits := h.fits t (by simp)
      have fits' := h'.fits u (by simp)
      have gaps : t.word.gap = u.word.gap := by
        rw [← (gap_eq fits r).1, ← (gap_eq fits' r').1, ← spelled, ← spelled']
      obtain ⟨t, ⟨gap, lexeme⟩⟩ := t
      obtain ⟨u, ⟨gap', lexeme'⟩⟩ := u
      obtain rfl : t = u := terminal
      obtain rfl : gap = gap' := gaps
      have same : lexeme ++ r = lexeme' ++ r' :=
        List.append_cancel_left (spelled.symm.trans spelled')
      by_cases reason : t = .reason
      · subst reason
        obtain ⟨body, rfl, _⟩ := Cursor.step_reason stepped
        obtain ⟨body', rfl, _⟩ := Cursor.step_reason stepped'
        obtain ⟨rfl, rfl⟩ := behind.nil_of_reason
        obtain ⟨rfl, rfl⟩ := behind'.nil_of_reason
        -- The reason and the blanks share what is left of the text, in whatever way.
        simp [Token.absorb, same]
      · have took := greedy fits stepped behind reason
        have took' := greedy fits' stepped' behind' reason
        rw [← same] at took'
        obtain ⟨rfl, rfl⟩ : lexeme = lexeme' ∧ r = r' := by simpa using took.symm.trans took'
        obtain rfl : n = n' := Option.some.inj (stepped.symm.trans stepped')
        rw [List.map_cons, List.map_cons, ih behind behind']
        simp [Token.absorb, reason]

end Splits
end DiceNotation.Grammar
