import DiceNotation.Proofs.Decimal.Text
import DiceNotation.Proofs.Roll.CombinedTotal
import DiceNotation.Proofs.Roll.Successes
import DiceNotation.Proofs.Result.Rendering

/-!
The numbers of a result. Whatever the operands are, an operation has a result of at most two places
and no power of ten, or it fails in one of two ways. So no number that a single roll shows stands
in scientific notation.
-/
namespace DiceNotation

open Text

namespace Decimal

structure Normal (d : Decimal) : Prop where
  placed : d.Placed
  short : d.digits ≤ 28
  unsigned : d.isZero = true → d.negative = false

def Scientific (d : Decimal) : Prop := 'E' ∈ d.text.toList

theorem not_mem_digits {digits : List Char} (digit : ∀ x ∈ digits, x.isDigit = true) :
    'E' ∉ digits :=
  fun member => absurd (digit 'E' member) (by decide)

theorem not_mem_placed {digits : List Char} (nonempty : digits ≠ [])
    (digit : ∀ x ∈ digits, x.isDigit = true) {place : Int} (short : place ≤ digits.length) :
    'E' ∉ placed digits place := by
  obtain ⟨whole, places, spelled, _, plain, _⟩ := placed_parts nonempty digit place short
  rw [List.forall_mem_append] at plain
  rw [spelled, List.mem_append, not_or]
  refine ⟨not_mem_digits plain.1, ?_⟩
  unfold pointed
  split
  · exact List.not_mem_nil
  · rw [List.mem_cons, not_or]
    exact ⟨by decide, not_mem_digits plain.2⟩

theorem scientific_iff (d : Decimal) : d.Scientific ↔ 0 < d.exponent ∨ d.adjusted < -6 := by
  have nonempty : numeral d.coefficient ≠ [] := Nat.toDigits_ne_nil
  have digit : ∀ x ∈ numeral d.coefficient, x.isDigit = true := fun x => isDigit_of_mem_numeral
  have adjusted : d.adjusted = d.exponent + (numeral d.coefficient).length - 1 := rfl
  have unsigned : d.Scientific ↔ 'E' ∈
      if d.exponent ≤ 0 ∧ -6 < d.exponent + (numeral d.coefficient).length then
        placed (numeral d.coefficient) (d.exponent + (numeral d.coefficient).length)
      else placed (numeral d.coefficient) 1 ++
        powerTail (d.exponent + (numeral d.coefficient).length - 1) := by
    rw [Scientific, text, String.toList_ofList]
    unfold textChars
    dsimp only
    split
    · exact List.mem_cons.trans (or_iff_right (by decide : 'E' ≠ '-'))
    · rfl
  rw [unsigned, adjusted]
  split
  · exact iff_of_false (not_mem_placed nonempty digit (by omega)) (by omega)
  · have power : 'E' ∈ powerTail (d.exponent + (numeral d.coefficient).length - 1) :=
      List.mem_cons_self
    exact iff_of_true (List.mem_append_right _ power) (by omega)

theorem Placed.not_scientific {d : Decimal} (h : d.Placed) : ¬ d.Scientific := by
  have positive : 0 < d.digits := digitCount_pos d.coefficient
  obtain ⟨low, high⟩ := h
  rw [scientific_iff, adjusted]
  omega

theorem onCents?_unsigned {c : Context} {d r : Decimal} (h : d.onCents? c = some r) :
    r.isZero = true → r.negative = false := by
  obtain ⟨placed, _, rfl⟩ := Option.map_eq_some_iff.mp h
  split
  · exact fun _ => rfl
  · rename_i nonzero
    exact fun zero => absurd zero nonzero

end Decimal

theorem Operator.apply_normal {op : Operator} {a b d : Decimal} (h : op.apply a b = .ok d) :
    d.Normal := by
  obtain ⟨placed, short⟩ := apply_placed h
  refine ⟨placed, short, ?_⟩
  unfold apply at h
  split at h
  · cases h
  · split at h
    · rename_i found
      cases h
      obtain ⟨_, _, unsigned⟩ := Option.bind_eq_some_iff.mp found
      exact Decimal.onCents?_unsigned unsigned
    · cases h

/-- A divisor that is zero is the error; if there is another one, it is an overflow. -/
theorem Operator.apply_error {op : Operator} {a b : Decimal} {e : ArithmeticError}
    (h : op.apply a b = .error e) :
    (op = .div ∧ b.isZero = true ∧ e = .divisionByZero) ∨ e = .overflow a op b := by
  unfold apply at h
  split at h
  · rename_i zero
    cases h
    exact .inl ⟨zero.1, zero.2, rfl⟩
  · split at h
    · cases h
    · cases h
      exact .inr rfl

def PlacedHistory (history : List HistoryItem) : Prop :=
  ∀ d, HistoryItem.value d ∈ history → d.Placed

section Evaluation

variable {σ : Type} [Source σ]

theorem PlacedHistory.inherited (limits built : Limits) :
    Inherited (σ := σ) limits built PlacedHistory where
  roll t _ := by
    apply (t.roll_yields limits).mono
    intro result _ d member
    cases List.mem_singleton.mp member
  value d placed d' member := by
    cases List.mem_singleton.mp member
    exact placed
  group history h d member := h d (by simpa using member)
  binary op history behind h k d member := by
    rcases List.mem_append.mp member with left | right
    · exact h d left
    · exact k d (by simpa using right)

end Evaluation

theorem bold_plain {text : String} (plain : 'E' ∉ text.toList) (markdown : Bool) :
    'E' ∉ (bold text markdown).toList := by
  unfold bold
  split
  · have marks : 'E' ∉ "**".toList := by decide
    simp only [String.toList_append, List.mem_append, not_or]
    exact ⟨⟨marks, plain⟩, marks⟩
  · exact plain

theorem signedNumeral_plain (n : Int) : 'E' ∉ (signedNumeral n).toList := by
  have digits (k : Nat) : 'E' ∉ numeral k :=
    Decimal.not_mem_digits fun x => isDigit_of_mem_numeral
  rw [signedNumeral, String.toList_ofList]
  split
  · rw [List.mem_cons, not_or]
    exact ⟨by decide, digits _⟩
  · exact digits _

theorem Total.shown_plain {total : Total} (h : total.amount.Placed) (markdown : Bool) :
    'E' ∉ (total.shown markdown).toList := by
  cases total with
  | value d => exact bold_plain h.not_scientific markdown
  | success n =>
    have noun : 'E' ∉ (if n = 1 then " success" else " successes").toList := by
      split <;> decide
    rw [shown, String.toList_append, List.mem_append, not_or]
    exact ⟨bold_plain (signedNumeral_plain n) markdown, noun⟩

/-- No number of the result is shown in scientific notation. -/
structure SingleResult.Plain (r : SingleResult) : Prop where
  values : ∀ d, HistoryItem.value d ∈ r.history → ¬ d.Scientific
  total : ∀ markdown, 'E' ∉ (r.total.shown markdown).toList

def Result.singles : Result → List SingleResult
  | single r => [r]
  | repeated r => r.rolls

theorem Result.singles_withReason {P : SingleResult → Prop}
    (blind : ∀ r reason, P r → P { r with reason := reason }) (result : Result)
    (h : ∀ r ∈ result.singles, P r) (reason : Option String) :
    ∀ r ∈ (result.withReason reason).singles, P r := by
  cases result with
  | single r =>
    rw [singles, List.forall_mem_singleton] at h
    rw [withReason, singles, List.forall_mem_singleton]
    exact blind r reason h
  | repeated r => exact h

section Rolls

variable {σ : Type} [Source σ] {built : Limits} {e : Expression}

theorem Expression.roll_plain (h : e.WellFormed built) (limits : Limits) (text : String) :
    Yields (e.roll limits text : Rolling σ SingleResult) SingleResult.Plain := by
  have value : Yields (e.evaluate limits : Rolling σ Evaluation) fun evaluation =>
      evaluation.value.Placed := ⟨evaluate_placed h⟩
  apply (value.and ((PlacedHistory.inherited limits built).evaluate limits h)).bind
  intro evaluation known
  obtain ⟨placed, literals⟩ := known
  apply Yields.pure
  constructor
  · intro d member
    exact (literals d member).not_scientific
  · exact Total.shown_plain (Evaluation.total_placed placed)

theorem rollTimes_plain (h : e.WellFormed built) (limits : Limits) (text : String) (n : Nat) :
    Yields (rollTimes limits e text n : Rolling σ (List SingleResult)) fun rolls =>
      ∀ r ∈ rolls, r.Plain := by
  induction n with
  | zero => exact .pure nofun
  | succ n ih =>
    apply (Expression.roll_plain h limits text).bind
    intro first plain
    apply ih.bind
    intro rest others
    exact .pure (List.forall_mem_cons.mpr ⟨plain, others⟩)

theorem Repetition.roll_plain {r : Repetition} (h : r.inner.WellFormed built) (limits : Limits) :
    Yields (r.roll limits : Rolling σ RepeatedResult) fun result =>
      ∀ single ∈ result.rolls, single.Plain := by
  apply (rollTimes_plain h limits r.text r.times.toNat).bind
  intro rolls plain
  cases r.mode with
  | plain => exact .pure plain
  | sort => exact .pure fun single member => plain single ((sortByTotal_perm rolls).subset member)
  | sum =>
    cases sumOfTotals? rolls with
    | none => exact .throw
    | some total => exact .pure plain

theorem Roller.roll_plain {roller : Roller} (h : roller.command.body.WellFormed built) :
    Yields (roller.roll : Rolling σ Result) fun result => ∀ r ∈ result.singles, r.Plain := by
  have blind (r : SingleResult) (reason : Option String) (plain : r.Plain) :
      SingleResult.Plain { r with reason := reason } := ⟨plain.values, plain.total⟩
  unfold roll
  cases body : roller.command.body with
  | once e =>
    rw [body] at h
    apply (Expression.roll_plain h roller.limits roller.command.text).bind
    intro result plain
    have alone : ∀ r ∈ (Result.single result).singles, r.Plain :=
      List.forall_mem_singleton.mpr plain
    exact .pure (Result.singles_withReason blind _ alone _)
  | repeated repetition =>
    rw [body] at h
    apply (Repetition.roll_plain h.1 roller.limits).bind
    intro result plain
    exact .pure (Result.singles_withReason blind (.repeated result) plain _)

/-- An operation on any two decimals has a result in normal form, or it divides by zero or
overflows. So no value that is computed for a command has more than two places or a power of ten in
front of its point, and nothing in a single roll or in one of a repetition is shown in scientific
notation. -/
theorem arithmetic_normal_form (built : Limits) :
    (∀ (op : Operator) (a b : Decimal), (∃ d, op.apply a b = .ok d ∧ d.Normal) ∨
      (op = .div ∧ b.isZero = true ∧ op.apply a b = .error .divisionByZero) ∨
      op.apply a b = .error (.overflow a op b)) ∧
    (∀ (text : String) (command : Command), Command.parse text built = .ok command →
      ∀ e ∈ command.body.expression.parts, ∀ limits : Limits,
        Yields (e.evaluate limits : Rolling σ Evaluation) fun evaluation =>
          evaluation.value.Placed) ∧
    ∀ (text : String) (roller : Roller), Roller.ofText text built = .ok roller →
      Yields (roller.roll : Rolling σ Result) fun result => ∀ r ∈ result.singles, r.Plain := by
  refine ⟨?_, ?_, ?_⟩
  · intro op a b
    cases applied : op.apply a b with
    | ok d => exact .inl ⟨d, rfl, Operator.apply_normal applied⟩
    | error e =>
      rcases Operator.apply_error applied with ⟨div, zero, rfl⟩ | rfl
      · exact .inr (.inl ⟨div, zero, rfl⟩)
      · exact .inr (.inr rfl)
  · intro text command parsed e part limits
    have wellFormed :=
      Expression.wellFormed_of_mem_parts (Command.expression_wellFormed parsed) part
    exact ⟨Expression.evaluate_placed wellFormed⟩
  · intro text roller made
    obtain ⟨command, parsed, rfl⟩ := Roller.ofText_eq_ok.mp made
    exact Roller.roll_plain (Command.parse_wellFormed parsed).body

end Rolls

theorem quarters_plain :
    ∃ roller result last, Roller.ofText "(1d6 * 0.25)^2" {} = .ok roller ∧
      (roller.roll : Rolling Script Result).run (Script.ofList [5, 2] false) =
        (.ok result, last) ∧
      result.singles.map SingleResult.total = [.value ⟨false, 125, -2⟩, .value ⟨false, 50, -2⟩] ∧
      ∀ r ∈ result.singles, r.Plain := by
  let quarter (face : Int) (points : Nat) : SingleResult := ⟨"1d6 * 0.25", [.roll ⟨"1d6", some 6,
    [{ value := face }]⟩, .operator .mul, .value ⟨false, 25, -2⟩], .value ⟨false, points, -2⟩, none⟩
  let roller : Roller := ⟨"(1d6 * 0.25)^2", ⟨.repeated ⟨.binary .mul
    (.dice ⟨1, some 6, [], none, "1d6"⟩) (.float ⟨false, 25, -2⟩), 2, .plain, "1d6 * 0.25"⟩, none,
    "(1d6 * 0.25)^2"⟩, {}⟩
  have made : Roller.ofText "(1d6 * 0.25)^2" {} = .ok roller := by cbv
  have ran : (roller.roll : Rolling Script Result).run (Script.ofList [5, 2] false) =
      (.ok (.repeated { expression := "1d6 * 0.25", rolls := [quarter 5 125, quarter 2 50] }),
        ⟨[5, 2], [], false, 2⟩) := by cbv
  obtain ⟨_, _, plain⟩ := arithmetic_normal_form (σ := Script) {}
  have each := (plain _ _ made).result ran
  exact ⟨_, _, _, made, ran, rfl, each⟩

end DiceNotation
