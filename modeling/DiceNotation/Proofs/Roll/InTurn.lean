import DiceNotation.Proofs.Command.Writing
import DiceNotation.Proofs.Roll.CombinedTotal
import DiceNotation.Proofs.Roll.Replay

/-!
A repetition is its inner text rolled several times in a row. The text in parentheses is built into
the same expression again, and its iterations are the rolls of a roller of that text, one after the
other on one source: same dice, same results, and the same error if one of them fails.
-/
namespace DiceNotation

open Text Grammar

variable {limits : Limits}

def RepeatMode.sign : RepeatMode → String
  | plain => ""
  | sum => "+"
  | sort => "#"

theorem RepeatMode.spell_word (mode : RepeatMode) : spellOption mode.word = mode.sign.toList := by
  cases mode <;> simp [word, sign, spellOption, Word.spell, Word.bare]

def Grammar.ExprPhrase.inTurn (p : ExprPhrase) (blanks : List Char) (mode : RepeatMode)
    (times : List Char) : RepeatPhrase :=
  ⟨.bare ['('], p, ⟨blanks, [')']⟩, .bare ['^'], mode.word, .bare times⟩

theorem Grammar.ExprPhrase.spell_inTurn (p : ExprPhrase) (blanks : List Char) (mode : RepeatMode)
    (times : List Char) : (p.inTurn blanks mode times).spell =
      '(' :: (p.spell ++ blanks) ++ [')', '^'] ++ mode.sign.toList ++ times := by
  simp [inTurn, RepeatPhrase.spell, mode.spell_word, Word.spell, Word.bare]

theorem Grammar.ExprPhrase.fits_inTurn {p : ExprPhrase} (fits : FitRow p.trees) {blanks : List Char}
    (blank : ∀ x ∈ blanks, isBlank x = true) (mode : RepeatMode) {times : List Char}
    (digits : Digits times) : (p.inTurn blanks mode times).tree.Fits := by
  have closing : (Word.mk blanks [')']).Fits .closeParen := ⟨blank, (Word.fits_literal rfl).2⟩
  simp only [RepeatPhrase.tree, ExprPhrase.tree, fits_node, List.cons_append, fitRow_node,
    fitRow_leaf, fitRow_append, fitRow_nil, and_true]
  exact ⟨Word.fits_literal rfl, fits, closing, Word.fits_literal rfl, mode.fits_word,
    Word.fits_bare digits⟩

/-- What a text becomes that is repeated: its expression, repeated as often as the numeral says. -/
theorem Command.parse_inTurn {text : String} {command : Command} {e : Expression}
    (parsed : Command.parse text limits = .ok command) (once : command.body = .once e)
    (plain : command.reason = none) {times : List Char} (digits : Digits times)
    (mode : RepeatMode) :
    ∃ whole, Command.parse ("(" ++ text ++ ")^" ++ mode.sign ++ String.ofList times) limits = do
      let n ← readNumeral .repetition times
      let r ← Repetition.assemble limits e n mode command.text
      return ⟨.repeated r, none, whole⟩ := by
  obtain ⟨⟨body, reason⟩, reading, built⟩ := Command.parse_eq_ok parsed
  obtain ⟨shaped, blanks, _, fits, spelled, blank⟩ := parses_of_read reading
  obtain ⟨found, builtBody, built⟩ := bind_eq_ok built
  cases built
  obtain rfl : reason = none := Option.map_eq_none_iff.mp plain
  obtain rfl : found = .once e := once
  cases body with
  | repeated p =>
    obtain ⟨r, _, other⟩ := bind_eq_ok builtBody
    cases other
  | expr p =>
    obtain ⟨inner, builtInner, same⟩ := bind_eq_ok builtBody
    cases same
    have row : FitRow p.trees := fits_node.mp (fits_node.mp fits p.tree List.mem_cons_self)
    have around : (CommandPhrase.mk (.repeated (p.inTurn blanks mode times)) none).tree.Fits := by
      rw [CommandPhrase.tree, fits_node]
      intro tree member
      obtain rfl := List.mem_singleton.mp member
      exact p.fits_inTurn row blank mode digits
    have written : (CommandPhrase.mk (.repeated (p.inTurn blanks mode times)) none).spell ++ [] =
        ("(" ++ text ++ ")^" ++ mode.sign ++ String.ofList times).toList := by
      have inner : text.toList = p.spell ++ blanks := by
        rw [spelled, CommandPhrase.spell_tree]
        simp [CommandPhrase.spell, BodyPhrase.spell, spellOption]
      simp [CommandPhrase.spell, BodyPhrase.spell, p.spell_inTurn, inner, spellOption]
    have again := read_spelled (c := ⟨.repeated (p.inTurn blanks mode times), none⟩) shaped around
      rfl [] (by simp)
    rw [written] at again
    refine ⟨slice (p.inTurn blanks mode times).spell, ?_⟩
    rw [Command.parse, again]
    simp only [CommandPhrase.build, BodyPhrase.build, ExprPhrase.inTurn, RepeatPhrase.build,
      builtInner, mode.read_word, bind_assoc, pure_bind]
    rfl

theorem Command.parse_repeated {text : String} {command : Command} {e : Expression}
    (parsed : Command.parse text limits = .ok command) (once : command.body = .once e)
    (plain : command.reason = none) {times : List Char} (digits : Digits times)
    (positive : 1 ≤ numeralValue times) (most : (numeralValue times : Int) ≤ limits.maxRepeat)
    (short : times.length ≤ maxNumeralDigits) (mode : RepeatMode) :
    ∃ repeated, Command.parse ("(" ++ text ++ ")^" ++ mode.sign ++ String.ofList times) limits =
        .ok repeated ∧
      repeated.body = .repeated ⟨e, numeralValue times, mode, command.text⟩ ∧
      repeated.reason = none := by
  obtain ⟨whole, again⟩ := Command.parse_inTurn parsed once plain digits mode
  refine ⟨⟨.repeated ⟨e, numeralValue times, mode, command.text⟩, none, whole⟩, ?_, rfl, rfl⟩
  rw [again, readNumeral_eq_ok_iff.mpr ⟨short, rfl⟩]
  change (Repetition.assemble limits e (numeralValue times) mode command.text).bind _ = _
  rw [Repetition.assemble, if_neg (by omega), if_neg (by omega)]
  rfl

variable {σ : Type} [Source σ]

def Roller.rollInTurn (r : Roller) : Nat → Rolling σ (List Result)
  | 0 => return []
  | n + 1 => do
      let first ← r.roll
      let rest ← r.rollInTurn n
      return first :: rest

theorem Roller.roll_once {roller : Roller} {e : Expression} (once : roller.command.body = .once e)
    (plain : roller.command.reason = none) : (roller.roll : Rolling σ Result) =
      (do return .single (← e.roll roller.limits roller.command.text)) := by
  simp only [roll, once, plain, Expression.roll, bind_assoc, pure_bind]
  rfl

theorem rollTimes_inTurn {roller : Roller} {e : Expression} (once : roller.command.body = .once e)
    (plain : roller.command.reason = none) (n : Nat) :
    (roller.rollInTurn n : Rolling σ (List Result)) =
      (do return (← rollTimes roller.limits e roller.command.text n).map .single) := by
  induction n with
  | zero => rfl
  | succ n ih =>
    rw [Roller.rollInTurn, ih, Roller.roll_once once plain, rollTimes]
    simp only [bind_assoc, pure_bind, List.map_cons]

/-- A list in another order: ascending by the totals, and equal totals in the order they had. -/
structure StablySorted (rolls sorted : List SingleResult) : Prop where
  perm : sorted.Perm rolls
  ascending : sorted.Pairwise fun a b => a.total.amount.toRat ≤ b.total.amount.toRat
  stable : ∀ q : ℚ, sorted.filter (fun r => r.total.amount.toRat = q) =
    rolls.filter fun r => r.total.amount.toRat = q

theorem sortByTotal_stable (rolls : List SingleResult) :
    StablySorted rolls (sortByTotal rolls) := by
  have trans (a b c : SingleResult) : a.total.amount.le b.total.amount →
      b.total.amount.le c.total.amount → a.total.amount.le c.total.amount := Decimal.trans_le
  have total (a b : SingleResult) := Decimal.total_le a.total.amount b.total.amount
  have perm := sortByTotal_perm rolls
  refine ⟨perm, ?_, ?_⟩
  · have sorted := List.pairwise_mergeSort trans total rolls
    exact sorted.imp fun {a b} => (Decimal.le_iff _ _).mp
  · intro q
    let equal := rolls.filter fun r => r.total.amount.toRat = q
    have among : equal.Pairwise fun a b => a.total.amount.le b.total.amount := by
      rw [List.pairwise_iff_forall_sublist]
      intro a b pair
      have first := List.mem_filter.mp (pair.subset (List.mem_cons_self))
      have second := List.mem_filter.mp (pair.subset (List.mem_cons_of_mem a List.mem_cons_self))
      rw [Decimal.le_iff]
      simp only [decide_eq_true_eq] at first second
      rw [first.2, second.2]
    have kept := List.sublist_mergeSort trans total among List.filter_sublist
    have whole := kept.filter fun r => decide (r.total.amount.toRat = q)
    rw [List.filter_filter] at whole
    simp only [Bool.and_self] at whole
    refine (whole.eq_of_length ?_).symm
    exact (perm.symm.filter _).length_eq

theorem Expression.roll_eq_ok {e : Expression} {text : String} {s last : σ} {r : SingleResult}
    (h : (e.roll limits text : Rolling σ SingleResult).run s = (.ok r, last)) :
    r.expression = text ∧ r.reason = none := by
  obtain ⟨evaluation, now, _, finish⟩ := run_bind_eq_ok h
  obtain ⟨rfl, _⟩ := run_pure_eq_ok finish
  exact ⟨rfl, rfl⟩

theorem rollTimes_eq_ok {e : Expression} {text : String} {n : Nat} {s last : σ}
    {rolls : List SingleResult}
    (h : (rollTimes limits e text n : Rolling σ (List SingleResult)).run s = (.ok rolls, last)) :
    ∀ r ∈ rolls, r.expression = text ∧ r.reason = none := by
  induction n generalizing s rolls with
  | zero =>
    obtain ⟨rfl, _⟩ := run_pure_eq_ok h
    exact nofun
  | succ n ih =>
    obtain ⟨first, now, rolled, h⟩ := run_bind_eq_ok h
    obtain ⟨rest, later, others, finish⟩ := run_bind_eq_ok h
    obtain ⟨rfl, rfl⟩ := run_pure_eq_ok finish
    exact List.forall_mem_cons.mpr ⟨Expression.roll_eq_ok rolled, ih others⟩

/-- How a repetition ends when the rolls in turn end in a certain way: with the error of the first
of them that fails, or with the list of all results, of which none has a reason. Totals that cannot
be added up make no combined total; one of them is then too large by itself. -/
def RepeatMode.Gathers (mode : RepeatMode) (text : String)
    (turns : Except RollError (List Result)) (outcome : Except RollError Result) : Prop :=
  match turns with
  | .error e => outcome = .error e
  | .ok results => ∃ rolls : List SingleResult, results = rolls.map .single ∧
      (∀ r ∈ rolls, r.expression = text ∧ r.reason = none) ∧
      match mode with
      | .plain => outcome = .ok (.repeated { expression := text, rolls := rolls })
      | .sum => (∀ sum, sumOfTotals? rolls = some sum →
            outcome = .ok (.repeated { expression := text, rolls := rolls, sum := some sum })) ∧
          (sumOfTotals? rolls = none → ∃ r ∈ rolls, 10 ^ addableDigits < |r.number|)
      | .sort => ∃ sorted, StablySorted rolls sorted ∧
          outcome = .ok (.repeated { expression := text, rolls := sorted, sorted := true })

theorem Roller.roll_gathers {roller : Roller} (repeated : Roller) {e : Expression} {n : Nat}
    {mode : RepeatMode} (once : roller.command.body = .once e)
    (plain : roller.command.reason = none)
    (body : repeated.command.body = .repeated ⟨e, n, mode, roller.command.text⟩)
    (unreasoned : repeated.command.reason = none) (same : repeated.limits = roller.limits) (s : σ) :
    ((repeated.roll : Rolling σ Result).run s).2 =
        ((roller.rollInTurn n : Rolling σ (List Result)).run s).2 ∧
      mode.Gathers roller.command.text ((roller.rollInTurn n : Rolling σ (List Result)).run s).1
        ((repeated.roll : Rolling σ Result).run s).1 := by
  rw [rollTimes_inTurn once plain]
  simp only [Roller.roll, body, unreasoned, same, Repetition.roll, Int.toNat_natCast, bind_assoc]
  rcases run : (rollTimes roller.limits e roller.command.text n :
    Rolling σ (List SingleResult)).run s with ⟨error | rolls, last⟩
  · rw [run_bind_of_error run, run_bind_of_error run]
    exact ⟨rfl, rfl⟩
  · have each := rollTimes_eq_ok run
    rw [run_bind_of_ok run, run_bind_of_ok run]
    cases mode with
    | plain => exact ⟨rfl, rolls, rfl, each, rfl⟩
    | sort => exact ⟨rfl, rolls, rfl, each, _, sortByTotal_stable rolls, rfl⟩
    | sum =>
      cases sum : sumOfTotals? rolls with
      | none =>
        exact ⟨rfl, rolls, rfl, each, by simp [sum], fun _ => exists_large_of_overflow sum⟩
      | some total =>
        refine ⟨rfl, rolls, rfl, each, ?_, by simp [sum]⟩
        intro found same
        rw [sum] at same
        cases same
        rfl

theorem Roller.long_times_refused {text : String} {limits : Limits} {roller : Roller}
    (built : Roller.ofText text limits = .ok roller) {e : Expression}
    (once : roller.command.body = .once e) (plain : roller.command.reason = none)
    {times : List Char} (digits : Digits times) (long : maxNumeralDigits < times.length)
    (mode : RepeatMode) :
    Roller.ofText ("(" ++ text ++ ")^" ++ mode.sign ++ String.ofList times) limits =
      .error (.longNumeral .repetition times.length) := by
  obtain ⟨command, parsed, rfl⟩ := Roller.ofText_eq_ok.mp built
  obtain ⟨whole, again⟩ := Command.parse_inTurn parsed once plain digits mode
  rw [Roller.ofText, again, readNumeral, if_pos long]
  rfl

theorem Decimal.magnitude_tenths {n k : ℕ} (next : n = k + 1) :
    magnitude ⟨false, 10 ^ n, -1⟩ = 10 ^ k := by
  rw [next, magnitude, Nat.cast_pow, Nat.cast_ofNat, pow_succ, zpow_neg_one, mul_assoc,
    mul_inv_cancel₀ (by norm_num), mul_one]

/-- A total that is too large for the sum, rolled once and not summed, has a result. -/
theorem Roller.float_sum_overflows {d : Decimal} (places : d.exponent = -1 ∨ d.exponent = -2)
    (large : 10 ^ 1000000 ≤ d.magnitude) (s : σ) :
    ∃ roller repeated result, ofText d.text {} = .ok roller ∧
      roller.command.body = .once (.float d) ∧ roller.command.reason = none ∧
      ofText ("(" ++ d.text ++ ")^+1") {} = .ok repeated ∧
      (roller.rollInTurn 1 : Rolling σ (List Result)).run s = (.ok [result], s) ∧
      (repeated.roll : Rolling σ Result).run s = (.error .sumOverflow, s) := by
  have parsed := Command.parse_float places {}
  have digits : Digits ['1'] := digits_singleton rfl
  obtain ⟨⟨body, reason, whole⟩, again, rfl, rfl⟩ := Command.parse_repeated parsed rfl rfl digits
    (by decide) (by decide) (by decide) .sum
  have text : "(" ++ d.text ++ ")^" ++ RepeatMode.sum.sign ++ String.ofList ['1'] =
      "(" ++ d.text ++ ")^+1" := by
    rw [String.append_assoc, String.append_assoc]
    rfl
  rw [text] at again
  let single : SingleResult := ⟨d.text, [.value d], .value d, none⟩
  have overflow : sumOfTotals? [single] = none := by
    have number : |single.number| = d.magnitude := d.abs_toRat
    have fine : d.exponent ≤ 0 := by omega
    exact sumOfTotals?_overflow fine (large.trans_eq number.symm)
  refine ⟨_, _, .single single, ofText_eq_ok.mpr ⟨_, parsed, rfl⟩, rfl, rfl,
    ofText_eq_ok.mpr ⟨_, again, rfl⟩, rfl, ?_⟩
  have rolls : (rollTimes {} (.float d) d.text 1 : Rolling σ (List SingleResult)).run s =
      (.ok [single], s) := rfl
  have summed := Repetition.roll_overflow (r := ⟨.float d, 1, .sum, d.text⟩) rfl rolls overflow
  exact run_bind_of_error summed

/-- A text without a reason that is repeated is rolled as often in a row on the same source. The
source may be one that keeps what it is asked, so the dice drawn are the same as well. A numeral
that is too long to be read stands for no number of times. -/
theorem Roller.repetition_in_turn {text : String} {limits : Limits} {roller : Roller}
    (built : Roller.ofText text limits = .ok roller) {e : Expression}
    (once : roller.command.body = .once e) (plain : roller.command.reason = none)
    {times : List Char} (digits : Digits times) (positive : 1 ≤ numeralValue times)
    (most : (numeralValue times : Int) ≤ limits.maxRepeat)
    (short : times.length ≤ maxNumeralDigits) (mode : RepeatMode) :
    ∃ repeated, Roller.ofText ("(" ++ text ++ ")^" ++ mode.sign ++ String.ofList times) limits =
        .ok repeated ∧
      repeated.command.body = .repeated ⟨e, numeralValue times, mode, roller.command.text⟩ ∧
      repeated.command.reason = none ∧
      ∀ (σ : Type) [Source σ] (s : σ),
        ((repeated.roll : Rolling σ Result).run s).2 =
            ((roller.rollInTurn (numeralValue times) : Rolling σ (List Result)).run s).2 ∧
          mode.Gathers roller.command.text
            ((roller.rollInTurn (numeralValue times) : Rolling σ (List Result)).run s).1
            ((repeated.roll : Rolling σ Result).run s).1 := by
  obtain ⟨command, parsed, rfl⟩ := Roller.ofText_eq_ok.mp built
  obtain ⟨repeated, again, body, unreasoned⟩ :=
    Command.parse_repeated parsed once plain digits positive most short mode
  refine ⟨_, Roller.ofText_eq_ok.mpr ⟨repeated, again, rfl⟩, body, unreasoned, ?_⟩
  intro σ _ s
  exact Roller.roll_gathers ⟨_, repeated, limits⟩ once plain body unreasoned rfl s

theorem two_dice_sorted_in_turn :
    Digits ['3'] ∧ ['3'].length ≤ maxNumeralDigits ∧
      ∃ roller repeated, Roller.ofText " 2d6 " {} = .ok roller ∧
      Roller.ofText "( 2d6 )^#3" {} = .ok repeated ∧
      ∀ s : Recorder Congruential,
        ((repeated.roll : Rolling _ Result).run s).2 =
            ((roller.rollInTurn 3 : Rolling _ (List Result)).run s).2 ∧
          RepeatMode.sort.Gathers "2d6" ((roller.rollInTurn 3 : Rolling _ (List Result)).run s).1
            ((repeated.roll : Rolling _ Result).run s).1 := by
  have digits : Digits ['3'] := digits_singleton rfl
  have short : ['3'].length ≤ maxNumeralDigits := by decide
  have built : Roller.ofText " 2d6 " {} = .ok ⟨" 2d6 ",
      ⟨.once (.dice ⟨2, some 6, [], none, "2d6"⟩), none, "2d6"⟩, {}⟩ := by cbv
  obtain ⟨repeated, again, _, _, turns⟩ :=
    Roller.repetition_in_turn built rfl rfl digits (by decide) (by decide) short .sort
  have text : "(" ++ " 2d6 " ++ ")^" ++ RepeatMode.sort.sign ++ String.ofList ['3'] =
      "( 2d6 )^#3" := by cbv
  rw [text] at again
  exact ⟨digits, short, _, repeated, built, again, turns _⟩

/-- Numerals of more than 4300 digits are refused even if zeros in front make them so long, and a
total may be too large for the sum although it is rolled. -/
theorem repetition_refused :
    (∃ roller, Roller.ofText "1" {} = .ok roller ∧
      roller.command.body = .once (.integer 1) ∧ roller.command.reason = none ∧
      numeralValue (List.replicate maxNumeralDigits '0' ++ ['1']) = 1 ∧
      Roller.ofText ("(1)^" ++ String.ofList (List.replicate maxNumeralDigits '0' ++ ['1'])) {} =
        .error (.longNumeral .repetition (maxNumeralDigits + 1))) ∧
    (∃ roller, Roller.ofText "1" { maxRepeat := (10 ^ maxNumeralDigits : ℕ) } = .ok roller ∧
      roller.command.body = .once (.integer 1) ∧ roller.command.reason = none ∧
      Roller.ofText ("(1)^" ++ signedNumeral (10 ^ maxNumeralDigits : ℕ))
        { maxRepeat := (10 ^ maxNumeralDigits : ℕ) } =
          .error (.longNumeral .repetition (digitCount (10 ^ maxNumeralDigits)))) ∧
    ∃ roller repeated result last,
      Roller.ofText (Decimal.text ⟨false, 10 ^ 1000001, -1⟩) {} = .ok roller ∧
      roller.command.body = .once (.float ⟨false, 10 ^ 1000001, -1⟩) ∧
      roller.command.reason = none ∧
      Roller.ofText ("(" ++ Decimal.text ⟨false, 10 ^ 1000001, -1⟩ ++ ")^+1") {} = .ok repeated ∧
      (roller.rollInTurn 1 : Rolling Congruential (List Result)).run (.ofSeed 0) =
        (.ok [result], last) ∧
      (repeated.roll : Rolling Congruential Result).run (.ofSeed 0) =
        (.error .sumOverflow, last) := by
  have built (limits : Limits) :
      Roller.ofText "1" limits = .ok ⟨"1", ⟨.once (.integer 1), none, "1"⟩, limits⟩ := by cbv
  have refused (limits : Limits) {times : List Char} (digits : Digits times)
      (long : maxNumeralDigits < times.length) : Roller.ofText ("(1)^" ++ String.ofList times)
        limits = .error (.longNumeral .repetition times.length) :=
    Roller.long_times_refused (built limits) rfl rfl digits long .plain
  refine ⟨⟨_, built _, rfl, rfl, numeralValue_zeros maxNumeralDigits ['1'], ?_⟩,
    ⟨_, built _, rfl, rfl, ?_⟩, ?_⟩
  · have digits : Digits ['1'] := digits_singleton rfl
    have length : (List.replicate maxNumeralDigits '0' ++ ['1']).length = maxNumeralDigits + 1 := by
      rw [List.length_append, List.length_replicate, List.length_singleton]
    rw [← length]
    exact refused {} (digits.zeros maxNumeralDigits) (by omega)
  · have long : maxNumeralDigits < digitCount (10 ^ maxNumeralDigits) := by
      rw [← not_le, digitCount_le_iff (by decide)]
      exact lt_irrefl _
    rw [signedNumeral_natCast]
    exact refused _ (digits_numeral _) long
  · have large : (10 : ℚ) ^ 1000000 ≤ Decimal.magnitude ⟨false, 10 ^ 1000001, -1⟩ := by
      rw [Decimal.magnitude_tenths (n := 1000001) (k := 1000000) rfl]
    obtain ⟨roller, repeated, result, floated⟩ :=
      Roller.float_sum_overflows (.inl rfl) large (Congruential.ofSeed 0)
    exact ⟨roller, repeated, result, .ofSeed 0, floated⟩

end DiceNotation
