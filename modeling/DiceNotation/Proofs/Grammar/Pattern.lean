import DiceNotation.Grammar.Terminal
import DiceNotation.Text.Blank
import Mathlib.Data.List.TakeWhile
import Mathlib.Tactic.IntervalCases

/-!
The patterns of the terminals. What a terminal takes from the front of a text is the longest lexeme
that matches its pattern, and it takes nothing only if no lexeme does.
-/
namespace DiceNotation.Grammar

open DiceNotation.Text

def Digits (s : List Char) : Prop := s ≠ [] ∧ ∀ c ∈ s, c.isDigit = true

def Signed (P : List Char → Prop) (s : List Char) : Prop :=
  P s ∨ ∃ sign rest, s = sign :: rest ∧ isSign sign = true ∧ P rest

def Fixed (s : List Char) : Prop :=
  ∃ whole places, s = whole ++ '.' :: places ∧ Digits whole ∧ Digits places ∧ places.length ≤ 2

def Counting (s : List Char) : Prop := Digits s ∧ s.head? ≠ some '0'

def OneOf (p : Char → Bool) (s : List Char) : Prop := ∃ c, s = [c] ∧ p c = true

namespace Terminal

def Matches (t : Terminal) (s : List Char) : Prop :=
  match t.literal? with
  | some spelling => s = spelling
  | none =>
      match t with
      | .count => Counting s
      | .marker => OneOf (fun c => c == 'd' || c == 'D') s
      | .fudge => OneOf (fun c => c == 'F' || c == 'f') s
      | .number => Digits s
      | .float => Signed Fixed s
      | .integer => Signed Digits s
      | .operator => OneOf isOperator s
      | .repeatMode => OneOf (fun c => c == '+' || c == '#') s
      | .reason => ∃ rest, s = ':' :: rest
      | _ => False

end Terminal

/-- What is split off the front of a text is of the class, and no less than any text of the class
that stands there. -/
structure TakesLongest (take? : List Char → Option (List Char × List Char))
    (P : List Char → Prop) : Prop where
  sound : ∀ {s taken rest}, take? s = some (taken, rest) → P taken
  longest : ∀ {l} (r), P l → ∃ taken rest, take? (l ++ r) = some (taken, rest) ∧
    l.length ≤ taken.length

theorem dropLiteral?_append_self (cs rest : List Char) :
    dropLiteral? cs (cs ++ rest) = some rest := by
  induction cs with
  | nil => rfl
  | cons c cs ih => simp [dropLiteral?, ih]

theorem takesLongest_literal (spelling : List Char) :
    TakesLongest (fun s => (dropLiteral? spelling s).map fun rest => (spelling, rest))
      (· = spelling) where
  sound := by
    intro s taken rest h
    simp only [Option.map_eq_some_iff, Prod.mk.injEq] at h
    obtain ⟨_, _, rfl, _⟩ := h
    rfl
  longest := by
    rintro l r rfl
    exact ⟨l, r, by simp [dropLiteral?_append_self], Nat.le_refl _⟩

theorem takesLongest_one (p : Char → Bool) : TakesLongest (takeOne? p) (OneOf p) where
  sound := by
    intro s taken rest h
    cases s with
    | nil => simp [takeOne?] at h
    | cons c s =>
      simp only [takeOne?, Option.ite_none_right_eq_some, Option.some.injEq, Prod.mk.injEq] at h
      exact ⟨c, h.2.1.symm, h.1⟩
  longest := by
    rintro l r ⟨c, rfl, holds⟩
    exact ⟨[c], r, by simp [takeOne?, holds], Nat.le_refl _⟩

theorem takesLongest_digits : TakesLongest takeDigits? Digits where
  sound := by
    intro s taken rest h
    simp only [takeDigits?, Option.ite_none_left_eq_some, Option.some.injEq, Prod.mk.injEq] at h
    obtain ⟨nonempty, rfl, _⟩ := h
    exact ⟨nonempty, fun c => List.mem_takeWhile_imp⟩
  longest := by
    rintro l r ⟨nonempty, digits⟩
    refine ⟨l ++ r.takeWhile Char.isDigit, r.dropWhile Char.isDigit, ?_, by simp⟩
    simp [takeDigits?, List.takeWhile_append_of_pos digits, List.dropWhile_append_of_pos digits,
      nonempty]

theorem takesLongest_signed {take? : List Char → Option (List Char × List Char)}
    {P : List Char → Prop} (h : TakesLongest take? P)
    (unsigned : ∀ {l}, P l → ∃ c rest, l = c :: rest ∧ isSign c = false) :
    TakesLongest (takeSigned? take?) (Signed P) where
  sound := by
    intro s taken rest took
    cases s with
    | nil => simp [takeSigned?] at took
    | cons c s =>
      simp only [takeSigned?] at took
      split at took
      · rename_i sign
        simp only [Option.map_eq_some_iff, Prod.exists, Prod.mk.injEq] at took
        obtain ⟨inner, left, took, rfl, rfl⟩ := took
        exact .inr ⟨c, inner, rfl, sign, h.sound took⟩
      · exact .inl (h.sound took)
  longest := by
    rintro l r (plain | ⟨sign, rest, rfl, isSign, inner⟩)
    · obtain ⟨taken, left, took, long⟩ := h.longest r plain
      obtain ⟨c, rest, rfl, unsigned⟩ := unsigned plain
      exact ⟨taken, left, by simpa [takeSigned?, unsigned] using took, long⟩
    · obtain ⟨taken, left, took, long⟩ := h.longest r inner
      exact ⟨sign :: taken, left, by simp [takeSigned?, isSign, took], by simpa using long⟩

theorem Digits.head {s : List Char} (h : Digits s) :
    ∃ c rest, s = c :: rest ∧ c.isDigit = true ∧ ∀ d ∈ rest, d.isDigit = true := by
  obtain ⟨nonempty, digits⟩ := h
  cases s with
  | nil => exact absurd rfl nonempty
  | cons c rest => exact ⟨c, rest, rfl, digits c (by simp), fun d mem => digits d (by simp [mem])⟩

theorem isSign_of_isDigit {c : Char} (h : c.isDigit = true) : isSign c = false := by
  rw [Bool.eq_false_iff]
  intro sign
  simp only [isSign, Bool.or_eq_true, beq_iff_eq] at sign
  rcases sign with rfl | rfl <;> revert h <;> decide

theorem Digits.unsigned {s : List Char} (h : Digits s) :
    ∃ c rest, s = c :: rest ∧ isSign c = false := by
  obtain ⟨c, rest, rfl, digit, _⟩ := h.head
  exact ⟨c, rest, rfl, isSign_of_isDigit digit⟩

theorem Fixed.head {s : List Char} (h : Fixed s) :
    ∃ c rest, s = c :: rest ∧ c.isDigit = true := by
  obtain ⟨whole, places, rfl, digits, _, _⟩ := h
  obtain ⟨c, rest, rfl, digit, _⟩ := digits.head
  exact ⟨c, rest ++ '.' :: places, rfl, digit⟩

theorem Fixed.unsigned {s : List Char} (h : Fixed s) :
    ∃ c rest, s = c :: rest ∧ isSign c = false := by
  obtain ⟨c, rest, rfl, digit⟩ := h.head
  exact ⟨c, rest, rfl, isSign_of_isDigit digit⟩

theorem takeDigits?_point {whole : List Char} (h : Digits whole) (rest : List Char) :
    takeDigits? (whole ++ '.' :: rest) = some (whole, '.' :: rest) := by
  have stop : Char.isDigit '.' = false := by decide
  simp [takeDigits?, List.takeWhile_append_of_pos h.2, List.dropWhile_append_of_pos h.2, h.1, stop]

theorem takesLongest_fixed : TakesLongest takeFixed? Fixed where
  sound := by
    intro s taken rest h
    unfold takeFixed? at h
    split at h
    · rename_i whole c left took
      have digits := takesLongest_digits.sound took
      simp only [Option.ite_none_right_eq_some] at h
      obtain ⟨digit, h⟩ := h
      split at h
      · rename_i d left' one
        obtain ⟨e, rfl, other⟩ := (takesLongest_one _).sound one
        cases h
        exact ⟨whole, [c, e], rfl, digits, ⟨by simp, by simp [digit, other]⟩, by simp⟩
      · cases h
        exact ⟨whole, [c], rfl, digits, ⟨by simp, by simp [digit]⟩, by simp⟩
    · cases h
  longest := by
    rintro l r ⟨whole, places, rfl, digits, digitPlaces, short⟩
    obtain ⟨c, others, rfl, digit, digitOthers⟩ := digitPlaces.head
    have took : takeDigits? ((whole ++ '.' :: c :: others) ++ r) =
        some (whole, '.' :: c :: (others ++ r)) := by
      simpa using takeDigits?_point digits (c :: (others ++ r))
    unfold takeFixed?
    rw [took]
    simp only [digit, if_true]
    cases others with
    | nil =>
      cases takeOne? Char.isDigit ([] ++ r) with
      | none => exact ⟨_, _, rfl, by simp⟩
      | some pair => exact ⟨_, _, rfl, by simp⟩
    | cons d others =>
      have last : others = [] := by
        simp only [List.length_cons] at short
        exact List.length_eq_zero_iff.mp (by omega)
      subst last
      have digitD := digitOthers d (by simp)
      exact ⟨whole ++ ['.', c, d], r, by simp [takeOne?, digitD], by simp⟩

theorem takesLongest_count : TakesLongest (Terminal.take? .count) Counting where
  sound := by
    intro s taken rest h
    cases s with
    | nil => simp [Terminal.take?, Terminal.literal?] at h
    | cons c s =>
      simp only [Terminal.take?, Terminal.literal?, Option.ite_none_right_eq_some,
        Bool.and_eq_true, bne_iff_ne, ne_eq, Option.some.injEq, Prod.mk.injEq] at h
      obtain ⟨⟨digit, nonzero⟩, rfl, _⟩ := h
      refine ⟨⟨by simp, ?_⟩, by simpa using nonzero⟩
      intro d member
      rcases List.mem_cons.mp member with rfl | member
      · exact digit
      · exact List.mem_takeWhile_imp member
  longest := by
    rintro l r ⟨digits, nonzero⟩
    obtain ⟨c, rest, rfl, digit, digitRest⟩ := digits.head
    refine ⟨c :: (rest ++ r.takeWhile Char.isDigit), r.dropWhile Char.isDigit, ?_, by simp⟩
    simp only [List.head?_cons, ne_eq, Option.some.injEq] at nonzero
    simp [Terminal.take?, Terminal.literal?, digit, nonzero, List.takeWhile_append_of_pos digitRest,
      List.dropWhile_append_of_pos digitRest]

theorem takesLongest_reason :
    TakesLongest (Terminal.take? .reason) (fun s => ∃ rest, s = ':' :: rest) where
  sound := by
    intro s taken rest h
    simp only [Terminal.take?, Terminal.literal?] at h
    split at h
    · cases h
      exact ⟨_, rfl⟩
    · cases h
  longest := by
    rintro l r ⟨rest, rfl⟩
    exact ⟨':' :: (rest ++ r), [], rfl, by simp⟩

namespace Terminal

theorem takesLongest (t : Terminal) : TakesLongest t.take? t.Matches := by
  cases t
  case count => exact takesLongest_count
  case marker => exact takesLongest_one _
  case fudge => exact takesLongest_one _
  case number => exact takesLongest_digits
  case float => exact takesLongest_signed takesLongest_fixed Fixed.unsigned
  case integer => exact takesLongest_signed takesLongest_digits Digits.unsigned
  case operator => exact takesLongest_one _
  case repeatMode => exact takesLongest_one _
  case reason => exact takesLongest_reason
  all_goals exact takesLongest_literal _

theorem matches_of_take? {t : Terminal} {s taken rest : List Char}
    (h : t.take? s = some (taken, rest)) : t.Matches taken :=
  t.takesLongest.sound h

def endsInDigits : Terminal → Bool
  | count | number | float | integer => true
  | _ => false

end Terminal

theorem Digits.grows {l y : List Char} {x : Char} (h : Digits (l ++ x :: y)) : x.isDigit = true :=
  h.2 x (by simp)

theorem Signed.grows {P : List Char → Prop}
    (unsigned : ∀ {l}, P l → ∃ c rest, l = c :: rest ∧ isSign c = false)
    (grows : ∀ {l y x}, P l → P (l ++ x :: y) → x.isDigit = true)
    {l y : List Char} {x : Char} (h : Signed P l) (k : Signed P (l ++ x :: y)) :
    x.isDigit = true := by
  rcases h with plain | ⟨sign, rest, rfl, isSign, inner⟩
  · obtain ⟨c, rest, rfl, notSign⟩ := unsigned plain
    rcases k with longer | ⟨sign, rest', eq, isSign, _⟩
    · exact grows plain longer
    · simp only [List.cons_append, List.cons.injEq] at eq
      rw [← eq.1, notSign] at isSign
      cases isSign
  · rcases k with longer | ⟨sign', rest', eq, _, longer⟩
    · obtain ⟨c, _, eq, notSign⟩ := unsigned longer
      simp only [List.cons_append, List.cons.injEq] at eq
      rw [← eq.1, isSign] at notSign
      cases notSign
    · simp only [List.cons_append, List.cons.injEq] at eq
      obtain ⟨rfl, rfl⟩ := eq
      exact grows inner longer

theorem Fixed.grows {l y : List Char} {x : Char} (h : Fixed l) (k : Fixed (l ++ x :: y)) :
    x.isDigit = true := by
  obtain ⟨whole, places, rfl, digits, _, _⟩ := h
  obtain ⟨whole', places', eq, digits', digitPlaces, _⟩ := k
  have first := takeDigits?_point digits (places ++ x :: y)
  have second := takeDigits?_point digits' places'
  rw [← eq, List.append_assoc, List.cons_append, first] at second
  simp only [Option.some.injEq, Prod.mk.injEq, List.cons.injEq, true_and] at second
  exact digitPlaces.2 x (by simp [← second.2])

namespace Terminal

theorem grows {t : Terminal} (h : t ≠ .reason) {l y : List Char} {x : Char} (short : t.Matches l)
    (long : t.Matches (l ++ x :: y)) : t.endsInDigits = true ∧ x.isDigit = true := by
  cases t <;> simp only [Matches, literal?] at short long
  case count => exact ⟨rfl, long.1.grows⟩
  case number => exact ⟨rfl, long.grows⟩
  case float => exact ⟨rfl, short.grows Fixed.unsigned Fixed.grows long⟩
  case integer => exact ⟨rfl, short.grows Digits.unsigned (fun _ longer => longer.grows) long⟩
  case reason => exact absurd rfl h
  case marker | fudge | operator | repeatMode =>
    obtain ⟨c, rfl, _⟩ := short
    obtain ⟨d, eq, _⟩ := long
    simp at eq
  all_goals
    subst short
    simp at long

theorem take?_of_matches {t : Terminal} (h : t ≠ .reason) {l r : List Char} (lexeme : t.Matches l)
    (stop : t.endsInDigits = true → ∀ x ∈ r.head?, x.isDigit = false) :
    t.take? (l ++ r) = some (l, r) := by
  obtain ⟨taken, rest, took, long⟩ := t.takesLongest.longest r lexeme
  obtain ⟨_, whole⟩ := take?_append took
  rcases List.append_eq_append_iff.mp whole with ⟨more, rfl, rfl⟩ | ⟨more, rfl, rfl⟩
  · have empty : more = [] := by
      rw [List.length_append] at long
      exact List.length_eq_zero_iff.mp (by omega)
    subst empty
    simpa using took
  · cases more with
    | nil => simpa using took
    | cons x more =>
      obtain ⟨ends, digit⟩ := grows h lexeme (matches_of_take? took)
      rw [stop ends x (by simp)] at digit
      cases digit

theorem take?_integer_of_count {s l r : List Char} (h : take? .count s = some (l, r)) :
    take? .integer s = some (l, r) := by
  cases s with
  | nil => simp [take?, literal?] at h
  | cons c s =>
    simp only [take?, literal?, Option.ite_none_right_eq_some, Bool.and_eq_true] at h
    obtain ⟨⟨digit, _⟩, h⟩ := h
    simpa [take?, literal?, takeSigned?, isSign_of_isDigit digit, takeDigits?, digit] using h

/-- Where a number with a point can be read, an integer ends in front of the point. -/
theorem take?_integer_of_float {s l r l' r' : List Char} (h : take? .float s = some (l, r))
    (k : take? .integer s = some (l', r')) : r'.head? = some '.' := by
  have point {s l r l' r' : List Char} (h : takeFixed? s = some (l, r))
      (k : takeDigits? s = some (l', r')) : r'.head? = some '.' := by
    unfold takeFixed? at h
    split at h
    · rename_i took
      rw [k] at took
      cases took
      rfl
    · cases h
  cases s with
  | nil => simp [take?, literal?, takeSigned?] at h
  | cons c s =>
    simp only [take?, literal?, takeSigned?] at h k
    split at h
    · rename_i sign
      simp only [sign, if_true, Option.map_eq_some_iff, Prod.exists, Prod.mk.injEq] at h k
      obtain ⟨_, _, took, _, _⟩ := h
      obtain ⟨_, _, digits, _, rfl⟩ := k
      exact point took digits
    · rename_i unsigned
      simp only [unsigned] at k
      exact point h k

def digitChars : List Char := ['0', '1', '2', '3', '4', '5', '6', '7', '8', '9']

def firsts (t : Terminal) : List Char :=
  match t.literal? with
  | some spelling => spelling.take 1
  | none =>
      match t with
      | .count | .number => digitChars
      | .float | .integer => '+' :: '-' :: digitChars
      | .marker => ['d', 'D']
      | .fudge => ['F', 'f']
      | .operator => ['+', '-', '*', '/']
      | .repeatMode => ['+', '#']
      | .reason => [':']
      | _ => []

end Terminal

theorem mem_digitChars {c : Char} (h : c.isDigit = true) : c ∈ Terminal.digitChars := by
  have range : 48 ≤ c.toNat ∧ c.toNat ≤ 57 := by
    simpa [Char.isDigit, UInt32.le_iff_toNat_le] using h
  have same : c = Char.ofNat c.toNat := (Char.ofNat_toNat c).symm
  obtain ⟨low, high⟩ := range
  generalize c.toNat = n at same low high
  subst same
  interval_cases n <;> decide

namespace Terminal

theorem Matches.head {t : Terminal} {s : List Char} (h : t.Matches s) :
    ∃ c rest, s = c :: rest ∧ c ∈ t.firsts := by
  have digit {c : Char} (d : c.isDigit = true) : c ∈ digitChars := mem_digitChars d
  have signed {P : List Char → Prop} (first : ∀ {l}, P l → ∃ c rest, l = c :: rest ∧
      c.isDigit = true) (h : Signed P s) :
      ∃ c rest, s = c :: rest ∧ c ∈ '+' :: '-' :: digitChars := by
    rcases h with plain | ⟨sign, rest, rfl, isSign, _⟩
    · obtain ⟨c, rest, rfl, d⟩ := first plain
      exact ⟨c, rest, rfl, by simp [digit d]⟩
    · refine ⟨sign, rest, rfl, ?_⟩
      simp only [Grammar.isSign, Bool.or_eq_true, beq_iff_eq] at isSign
      rcases isSign with rfl | rfl <;> simp
  cases t <;> simp only [Matches, literal?] at h
  case count =>
    obtain ⟨c, rest, rfl, d, _⟩ := h.1.head
    exact ⟨c, rest, rfl, digit d⟩
  case number =>
    obtain ⟨c, rest, rfl, d, _⟩ := h.head
    exact ⟨c, rest, rfl, digit d⟩
  case float => exact signed Fixed.head h
  case integer =>
    refine signed ?_ h
    intro l digits
    obtain ⟨c, rest, rfl, d, _⟩ := digits.head
    exact ⟨c, rest, rfl, d⟩
  case reason =>
    obtain ⟨rest, rfl⟩ := h
    exact ⟨':', rest, rfl, by decide⟩
  case marker | fudge | operator | repeatMode =>
    obtain ⟨c, rfl, class_⟩ := h
    refine ⟨c, [], rfl, ?_⟩
    simpa [firsts, literal?, isOperator, or_assoc] using class_
  all_goals
    subst h
    exact ⟨_, _, rfl, by decide⟩

theorem isBlank_of_mem_firsts {t : Terminal} {c : Char} (h : c ∈ t.firsts) : isBlank c = false := by
  have none : Terminal.all.all (fun t => t.firsts.all fun c => !isBlank c) = true := by decide
  simpa using List.all_eq_true.mp (List.all_eq_true.mp none t (mem_all t)) c h

end Terminal
end DiceNotation.Grammar
