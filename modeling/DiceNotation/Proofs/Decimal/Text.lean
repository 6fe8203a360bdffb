import DiceNotation.Decimal.Text
import DiceNotation.Proofs.Grammar.Pattern

/-!
The written form of a decimal stands for that decimal: sign, digits and exponent are read back.
-/
namespace DiceNotation

open Text

theorem numeralValue_eq (digits : List Char) :
    numeralValue digits = Nat.ofDigitChars 10 digits 0 := by
  rw [Nat.ofDigitChars_eq_foldl]
  rfl

theorem numeralValue_numeral (n : Nat) : numeralValue (numeral n) = n := by
  rw [numeralValue_eq, numeral, Nat.ofDigitChars_ten_toDigits]

theorem isDigit_of_mem_numeral {n : Nat} {x : Char} (h : x ∈ numeral n) : x.isDigit = true :=
  Nat.isDigit_of_mem_toDigits (by decide) (by decide) h

theorem numeralValue_zeros (k : Nat) (digits : List Char) :
    numeralValue (List.replicate k '0' ++ digits) = numeralValue digits := by
  rw [numeralValue_eq, numeralValue_eq, Nat.ofDigitChars_append, Nat.ofDigitChars_replicate_zero,
    Nat.mul_zero]

namespace Decimal

/-- The decimals within the bounds for powers of ten. No text stands for any other. -/
structure Storable (d : Decimal) : Prop where
  first : (if d.coefficient = 0 then d.exponent else d.adjusted) ≤ maxTextExponent
  last : minTextExponent ≤ d.exponent

def numberChars : List Char := Grammar.Terminal.digitChars ++ ['.', 'E', '+', '-']

theorem mem_numberChars {x : Char} (h : x.isDigit = true) : x ∈ numberChars :=
  List.mem_append_left _ (Grammar.mem_digitChars h)

theorem numberChars_all : numberChars.all (fun x =>
    !isSpace x && x != '_' && decide (x.toNat < 0x80)) = true := by decide

theorem numberChars_plain {x : Char} (h : x ∈ numberChars) :
    isSpace x = false ∧ (x != '_') = true ∧ x.toNat < 0x80 := by
  have plain := List.all_eq_true.mp numberChars_all x h
  simpa only [Bool.and_eq_true, Bool.not_eq_true', decide_eq_true_eq, and_assoc] using plain

def pointed (places : List Char) : List Char := if places = [] then [] else '.' :: places

structure Parts where
  whole : List Char
  places : List Char
  tail : List Char
  power : Int

def Parts.spell (p : Parts) : List Char := p.whole ++ (pointed p.places ++ p.tail)

structure Parts.StandFor (p : Parts) (d : Decimal) : Prop where
  whole : p.whole ≠ []
  digits : ∀ x ∈ p.whole ++ p.places, x.isDigit = true
  plain : ∀ x ∈ p.tail, x ∈ numberChars
  stops : ∀ x ∈ p.tail.head?, x.isDigit = false ∧ x ≠ '.'
  power : readExponent? p.tail = some p.power
  coefficient : numeralValue (p.whole ++ p.places) = d.coefficient
  exponent : p.power - p.places.length = d.exponent

theorem span_append {p : Char → Bool} {front rest : List Char} (all : ∀ x ∈ front, p x = true)
    (stops : ∀ x ∈ rest.head?, p x = false) :
    (front ++ rest).takeWhile p = front ∧ (front ++ rest).dropWhile p = rest := by
  rw [List.takeWhile_append_of_pos all, List.dropWhile_append_of_pos all]
  cases rest with
  | nil => simp
  | cons x rest => simp [stops x rfl]

/-- Two equal texts are cut in the same place: where characters of one kind end. -/
theorem append_injective {p : Char → Bool} {front front' rest rest' : List Char}
    (all : ∀ x ∈ front, p x = true) (all' : ∀ x ∈ front', p x = true)
    (stops : ∀ x ∈ rest.head?, p x = false) (stops' : ∀ x ∈ rest'.head?, p x = false)
    (same : front ++ rest = front' ++ rest') : front = front' ∧ rest = rest' := by
  obtain ⟨taken, dropped⟩ := span_append all stops
  obtain ⟨taken', dropped'⟩ := span_append all' stops'
  rw [same] at taken dropped
  exact ⟨taken.symm.trans taken', dropped.symm.trans dropped'⟩

theorem span_digits {digits rest : List Char} (digit : ∀ x ∈ digits, x.isDigit = true)
    (stops : ∀ x ∈ rest.head?, x.isDigit = false) :
    (digits ++ rest).takeWhile Char.isDigit = digits ∧
      (digits ++ rest).dropWhile Char.isDigit = rest :=
  span_append digit stops

theorem Parts.StandFor.behind_whole {p : Parts} {d : Decimal} (h : p.StandFor d) :
    ∀ x ∈ (pointed p.places ++ p.tail).head?, x.isDigit = false := by
  intro x head
  unfold pointed at head
  split at head
  · exact (h.stops x head).1
  · obtain rfl := Option.some.inj head
    rfl

def splitPlaces : List Char → List Char × List Char
  | '.' :: rest => (rest.takeWhile Char.isDigit, rest.dropWhile Char.isDigit)
  | rest => ([], rest)

theorem readFinite?_eq (negative : Bool) (s : List Char) : readFinite? negative s =
    let whole := s.takeWhile Char.isDigit
    let (places, rest) := splitPlaces (s.dropWhile Char.isDigit)
    if whole = [] ∧ places = [] then none
    else (readExponent? rest).bind fun power =>
      let d : Decimal := ⟨negative, numeralValue (whole ++ places), power - places.length⟩
      if (if d.coefficient = 0 then d.exponent else d.adjusted) ≤ maxTextExponent ∧
        minTextExponent ≤ d.exponent then some d else none := rfl

theorem splitPlaces_pointed {places tail : List Char} (digit : ∀ x ∈ places, x.isDigit = true)
    (stops : ∀ x ∈ tail.head?, x.isDigit = false ∧ x ≠ '.') :
    splitPlaces (pointed places ++ tail) = (places, tail) := by
  cases places with
  | nil =>
    unfold splitPlaces
    split
    · rename_i rest same
      have tailed : tail = '.' :: rest := same
      rw [tailed] at stops
      exact absurd rfl (stops '.' rfl).2
    · rfl
  | cons place places =>
    obtain ⟨within, rest⟩ := span_digits digit (fun x head => (stops x head).1)
    exact Prod.ext within rest

theorem readFinite?_spell {p : Parts} {d : Decimal} (h : p.StandFor d) (storable : d.Storable) :
    readFinite? d.negative p.spell = some d := by
  have digitWhole : ∀ x ∈ p.whole, x.isDigit = true :=
    fun x member => h.digits x (List.mem_append_left _ member)
  have digitPlaces : ∀ x ∈ p.places, x.isDigit = true :=
    fun x member => h.digits x (List.mem_append_right _ member)
  obtain ⟨front, behind⟩ := span_digits digitWhole h.behind_whole
  rw [readFinite?_eq, Parts.spell, front, behind, splitPlaces_pointed digitPlaces h.stops]
  simp only [h.whole, false_and, if_false, h.power, Option.bind_some, h.coefficient, h.exponent]
  exact if_pos ⟨storable.first, storable.last⟩

theorem placed_parts {digits : List Char} (nonempty : digits ≠ [])
    (digit : ∀ x ∈ digits, x.isDigit = true) (place : Int) (short : place ≤ digits.length) :
    ∃ whole places, placed digits place = whole ++ pointed places ∧ whole ≠ [] ∧
      (∀ x ∈ whole ++ places, x.isDigit = true) ∧
      numeralValue (whole ++ places) = numeralValue digits ∧
      (places.length : Int) = digits.length - place := by
  unfold placed
  split
  · rename_i low
    refine ⟨['0'], List.replicate (-place).toNat '0' ++ digits, ?_, by simp, ?_, ?_, ?_⟩
    · simp [pointed, nonempty]
    · intro x member
      simp only [List.cons_append, List.nil_append, List.mem_cons, List.mem_append,
        List.mem_replicate] at member
      obtain rfl | ⟨_, rfl⟩ | inside := member
      · rfl
      · rfl
      · exact digit x inside
    · exact numeralValue_zeros ((-place).toNat + 1) digits
    · rw [List.length_append, List.length_replicate]
      omega
  · split
    · rename_i high
      obtain rfl : place = digits.length := by omega
      exact ⟨digits, [], by simp [pointed], nonempty, by simpa using digit, by simp, by simp⟩
    · rename_i low high
      have behind : digits.drop place.toNat ≠ [] := by
        intro empty
        have short := List.drop_eq_nil_iff.mp empty
        omega
      have front : digits.take place.toNat ≠ [] := by
        intro empty
        rcases List.take_eq_nil_iff.mp empty with zero | nil
        · omega
        · exact nonempty nil
      refine ⟨digits.take place.toNat, digits.drop place.toNat, ?_, front, ?_, ?_, ?_⟩
      · rw [pointed, if_neg behind]
      · rwa [List.take_append_drop]
      · rw [List.take_append_drop]
      · rw [List.length_drop]
        omega

def powerTail (power : Int) : List Char :=
  'E' :: (if power < 0 then '-' else '+') :: numeral power.natAbs

theorem readExponent?_powerTail (power : Int) : readExponent? (powerTail power) = some power := by
  have nonempty : numeral power.natAbs ≠ [] := Nat.toDigits_ne_nil
  have digits : (numeral power.natAbs).all Char.isDigit = true :=
    List.all_eq_true.mpr fun x => isDigit_of_mem_numeral
  have lower : 'E'.toLower = 'e' := by decide
  unfold powerTail readExponent?
  split_ifs with below
  · simp only [splitSign, lower, nonempty, digits, numeralValue_numeral, ne_eq, not_false_eq_true,
      and_self, if_true, Option.some.injEq]
    omega
  · simp only [splitSign, lower, nonempty, digits, numeralValue_numeral, ne_eq, not_false_eq_true,
      and_self, if_true, Bool.false_eq_true, if_false, Option.some.injEq]
    omega

theorem mem_powerTail (power : Int) : ∀ x ∈ powerTail power, x ∈ numberChars := by
  have sign : (if power < 0 then '-' else '+') ∈ numberChars := by split <;> decide
  have digits : ∀ x ∈ numeral power.natAbs, x ∈ numberChars :=
    fun x member => mem_numberChars (isDigit_of_mem_numeral member)
  exact List.forall_mem_cons.mpr ⟨by decide, List.forall_mem_cons.mpr ⟨sign, digits⟩⟩

theorem textChars_parts (d : Decimal) : ∃ p : Parts, p.StandFor d ∧
    d.textChars = if d.negative then '-' :: p.spell else p.spell := by
  have nonempty : numeral d.coefficient ≠ [] := Nat.toDigits_ne_nil
  have digit : ∀ x ∈ numeral d.coefficient, x.isDigit = true := fun x => isDigit_of_mem_numeral
  have value := numeralValue_numeral d.coefficient
  have long : 0 < (numeral d.coefficient).length := Nat.length_toDigits_pos
  suffices written : ∃ p : Parts, p.StandFor d ∧ p.spell =
      if d.exponent ≤ 0 ∧ -6 < d.exponent + (numeral d.coefficient).length then
        placed (numeral d.coefficient) (d.exponent + (numeral d.coefficient).length)
      else placed (numeral d.coefficient) 1 ++
        powerTail (d.exponent + (numeral d.coefficient).length - 1) by
    obtain ⟨p, stands, spelled⟩ := written
    refine ⟨p, stands, ?_⟩
    rw [spelled]
    rfl
  split
  · obtain ⟨whole, places, spelled, front, digits, same, length⟩ :=
      placed_parts nonempty digit (d.exponent + (numeral d.coefficient).length) (by omega)
    refine ⟨⟨whole, places, [], 0⟩, ⟨front, digits, nofun, nofun, rfl, same.trans value, ?_⟩, ?_⟩
    · dsimp only
      omega
    · simp only [Parts.spell, List.append_nil, spelled]
  · obtain ⟨whole, places, spelled, front, digits, same, length⟩ :=
      placed_parts nonempty digit 1 (by omega)
    let power := d.exponent + (numeral d.coefficient).length - 1
    refine ⟨⟨whole, places, powerTail power, power⟩, ⟨front, digits, mem_powerTail power, ?_,
      readExponent?_powerTail power, same.trans value, ?_⟩, ?_⟩
    · intro x head
      obtain rfl := Option.some.inj head
      decide
    · dsimp only
      omega
    · simp only [Parts.spell, spelled, List.append_assoc, power]

theorem mem_spell {p : Parts} {d : Decimal} (h : p.StandFor d) :
    ∀ x ∈ p.spell, x ∈ numberChars := by
  intro x member
  simp only [Parts.spell, pointed, List.mem_append] at member
  rcases member with whole | behind | tail
  · exact mem_numberChars (h.digits x (List.mem_append_left _ whole))
  · split at behind
    · cases behind
    · rcases List.mem_cons.mp behind with rfl | place
      · decide
      · exact mem_numberChars (h.digits x (List.mem_append_right _ place))
  · exact h.plain x tail

theorem Parts.spell_injective {p q : Parts} {d e : Decimal} (h : p.StandFor d) (k : q.StandFor e)
    (same : p.spell = q.spell) : d.coefficient = e.coefficient ∧ d.exponent = e.exponent := by
  have digits := List.forall_mem_append.mp h.digits
  have digits' := List.forall_mem_append.mp k.digits
  obtain ⟨whole, rest⟩ :=
    append_injective digits.1 digits'.1 h.behind_whole k.behind_whole same
  have parted := congrArg splitPlaces rest
  rw [splitPlaces_pointed digits.2 h.stops, splitPlaces_pointed digits'.2 k.stops,
    Prod.mk.injEq] at parted
  obtain ⟨places, tail⟩ := parted
  have power : p.power = q.power := by
    have read := h.power
    rw [tail, k.power] at read
    exact (Option.some.inj read).symm
  constructor
  · rw [← h.coefficient, ← k.coefficient, whole, places]
  · rw [← h.exponent, ← k.exponent, power, places]

theorem Parts.StandFor.unsigned {p : Parts} {d : Decimal} (h : p.StandFor d) (rest : List Char) :
    p.spell ≠ '-' :: rest := by
  intro sign
  obtain ⟨x, more, first⟩ := List.exists_cons_of_ne_nil h.whole
  have digit : x.isDigit = true := h.digits x (by simp [first])
  rw [Parts.spell, first] at sign
  cases sign
  cases digit

/-- A decimal is known from its text, also one that is too large to be read. -/
theorem textChars_injective {d e : Decimal} (same : d.textChars = e.textChars) : d = e := by
  obtain ⟨p, h, written⟩ := textChars_parts d
  obtain ⟨q, k, written'⟩ := textChars_parts e
  rw [written, written'] at same
  have signs : d.negative = e.negative ∧ p.spell = q.spell := by
    split at same
    · rename_i minus
      split at same
      · rename_i minus'
        exact ⟨minus.trans minus'.symm, (List.cons.inj same).2⟩
      · exact absurd same.symm (k.unsigned _)
    · rename_i plus
      split at same
      · exact absurd same (h.unsigned _)
      · rename_i plus'
        rw [Bool.not_eq_true] at plus plus'
        exact ⟨plus.trans plus'.symm, same⟩
  obtain ⟨coefficient, exponent⟩ := Parts.spell_injective h k signs.2
  cases d
  cases e
  rw [Decimal.mk.injEq]
  exact ⟨signs.1, coefficient, exponent⟩

theorem trim_eq_self {s : List Char} (h : ∀ x ∈ s, isSpace x = false) : trim s = s := by
  have kept {s : List Char} (h : ∀ x ∈ s, isSpace x = false) : s.dropWhile isSpace = s := by
    cases s with
    | nil => rfl
    | cons x s => rw [List.dropWhile_cons_of_neg (by simp [h x List.mem_cons_self])]
  have reversed : ∀ x ∈ s.reverse, isSpace x = false :=
    fun x member => h x (List.mem_reverse.mp member)
  rw [trim, trimStart, kept h, trimEnd, dropEndWhile, kept reversed, List.reverse_reverse]

theorem plain_of_numberChars {s : List Char} (h : ∀ x ∈ s, x ∈ numberChars) :
    (((trim s).filter (· != '_')).mapM fun c =>
      if c.toNat < 0x80 then some c else asciiDigit? c) = some s := by
  rw [trim_eq_self fun x member => (numberChars_plain (h x member)).1,
    List.filter_eq_self.mpr fun x member => (numberChars_plain (h x member)).2.1]
  induction s with
  | nil => rfl
  | cons x s ih =>
    rw [List.forall_mem_cons] at h
    rw [List.mapM_cons, if_pos (numberChars_plain h.1).2.2, ih h.2]
    rfl

theorem readNumeric?_of_digit {x : Char} {more : List Char} (digit : x.isDigit = true)
    (plain : ∀ y ∈ more, y ∈ numberChars) (negative : Bool) :
    readNumeric? (if negative then '-' :: x :: more else x :: more) =
      (readFinite? negative (x :: more)).map .finite := by
  have letters : ∀ y ∈ x :: more, y ∈ numberChars :=
    List.forall_mem_cons.mpr ⟨mem_numberChars digit, plain⟩
  have signed : ∀ y ∈ (if negative then '-' :: x :: more else x :: more), y ∈ numberChars := by
    split
    · exact List.forall_mem_cons.mpr ⟨by decide, letters⟩
    · exact letters
  have inside := Grammar.mem_digitChars digit
  simp only [Grammar.Terminal.digitChars, List.mem_cons, List.not_mem_nil, or_false] at inside
  have parted : splitSign (if negative then '-' :: x :: more else x :: more) =
      (negative, x :: more) := by
    cases negative with
    | true => rfl
    | false => rcases inside with rfl | rfl | rfl | rfl | rfl | rfl | rfl | rfl | rfl | rfl <;> rfl
  rw [readNumeric?, plain_of_numberChars signed]
  simp only [Option.bind_eq_bind, Option.bind_some, parted]
  -- No digit starts a word such as `infinity`.
  rcases inside with rfl | rfl | rfl | rfl | rfl | rfl | rfl | rfl | rfl | rfl <;> rfl

/-- A decimal is read back from its text. -/
theorem readNumeric?_textChars {d : Decimal} (storable : d.Storable) :
    readNumeric? d.textChars = some (.finite d) := by
  obtain ⟨p, stands, written⟩ := textChars_parts d
  obtain ⟨x, more, first⟩ := List.exists_cons_of_ne_nil stands.whole
  have digit : x.isDigit = true := stands.digits x (by simp [first])
  have spelled : p.spell = x :: (more ++ (pointed p.places ++ p.tail)) := by
    rw [Parts.spell, first, List.cons_append]
  have plain := mem_spell stands
  rw [spelled, List.forall_mem_cons] at plain
  have reading := readFinite?_spell stands storable
  rw [spelled] at reading
  rw [written, spelled, readNumeric?_of_digit digit plain.2, reading]
  rfl

theorem storable_of_readFinite? {negative : Bool} {s : List Char} {d : Decimal}
    (h : readFinite? negative s = some d) : d.Storable := by
  rw [readFinite?_eq] at h
  dsimp only at h
  split at h
  · cases h
  · obtain ⟨power, _, h⟩ := Option.bind_eq_some_iff.mp h
    obtain ⟨bounds, same⟩ := Option.ite_none_right_eq_some.mp h
    obtain rfl := Option.some.inj same
    exact ⟨bounds.1, bounds.2⟩

theorem storable_iff {d : Decimal} :
    d.Storable ↔ ∃ s, readNumeric? s = some (.finite d) := by
  constructor
  · intro storable
    exact ⟨d.textChars, readNumeric?_textChars storable⟩
  · intro read
    obtain ⟨s, h⟩ := read
    obtain ⟨plain, _, h⟩ := Option.bind_eq_some_iff.mp h
    dsimp only at h
    split at h
    · cases h
    · split at h
      · split at h <;> cases h
      · obtain ⟨found, read, same⟩ := Option.map_eq_some_iff.mp h
        cases same
        exact storable_of_readFinite? read

end Decimal

end DiceNotation
