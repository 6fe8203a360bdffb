import DiceNotation.Proofs.Except
import DiceNotation.Proofs.Grammar.Acceptance
import Mathlib.Data.List.Nodup

/-!
Every command that is built is well formed: its numbers are in their ranges, what needs a number has
one, and clauses that contradict each other do not meet.
-/
namespace DiceNotation

open Text Grammar

/-- A number that a numeral of readable length can stand for. -/
def Readable (n : Int) : Prop := 0 ≤ n ∧ n < 10 ^ maxNumeralDigits

theorem readable_one : Readable 1 := by
  refine ⟨by omega, ?_⟩
  exact_mod_cast Nat.one_lt_pow (by decide : maxNumeralDigits ≠ 0) (by omega : 1 < 10)

def Modifier.WellFormed (m : Modifier) : Prop :=
  match m.value with
  | none => m.kind = .explode ∨ m.kind = .explodeAll
  | some n => Readable n

structure Scoring.WellFormed (s : Scoring) : Prop where
  nonempty : s ≠ .empty
  target : ∀ n ∈ s.target, 0 < n ∧ Readable n
  values : ∀ values ∈ s.targetValues, values ≠ [] ∧ ∀ n ∈ values, Readable n
  doubleTarget : ∀ n ∈ s.doubleTarget, 0 < n ∧ Readable n
  failure : ∀ n ∈ s.failure, 0 < n ∧ Readable n
  exclusive : s.targetValues.isSome → s.target = none ∧ s.doubleTarget = none

structure DiceTerm.WellFormed (limits : Limits) (t : DiceTerm) : Prop where
  count : 1 ≤ t.count ∧ t.count ≤ limits.maxDice ∧ Readable t.count
  fudge : t.sides = none → t.modifiers = [] ∧ t.scoring = none
  sides : ∀ n ∈ t.sides, 1 ≤ n ∧ n ≤ limits.maxSides ∧ Readable n
  modifiers : ∀ m ∈ t.modifiers, m.WellFormed
  scoring : ∀ s ∈ t.scoring, s.WellFormed

def Expression.IsBinary : Expression → Prop
  | binary _ _ _ => True
  | _ => False

/-- Operators bind alike and to the left. -/
def Expression.WellFormed (limits : Limits) : Expression → Prop
  | dice term => term.WellFormed limits
  | integer value => Readable value.natAbs
  | float value => value.exponent = -1 ∨ value.exponent = -2
  | group inner => inner.WellFormed limits
  | binary _ left right =>
      left.WellFormed limits ∧ right.WellFormed limits ∧ ¬ right.IsBinary

def Body.WellFormed (limits : Limits) : Body → Prop
  | once e => e.WellFormed limits
  | repeated r => r.inner.WellFormed limits ∧ 1 ≤ r.times ∧ r.times ≤ limits.maxRepeat ∧
      Readable r.times

structure Command.WellFormed (limits : Limits) (c : Command) : Prop where
  body : c.body.WellFormed limits
  reason : ∀ r ∈ c.reason, trim r.toList = r.toList

theorem foldl_numeral_lt {digits : List Char} (h : ∀ c ∈ digits, c.isDigit = true) (n : Nat) :
    digits.foldl (fun n c => 10 * n + digitValue c) n < (n + 1) * 10 ^ digits.length := by
  induction digits generalizing n with
  | nil => simp
  | cons c digits ih =>
    rw [List.forall_mem_cons] at h
    have small : digitValue c ≤ 9 := by
      have range := h.1
      simp only [Char.isDigit, Bool.and_eq_true, decide_eq_true_eq, UInt32.le_iff_toNat_le] at range
      have high : c.toNat ≤ 57 := range.2
      rw [digitValue]
      omega
    rw [List.foldl_cons, List.length_cons, Nat.pow_succ']
    calc _ < (10 * n + digitValue c + 1) * 10 ^ digits.length := ih h.2 _
      _ ≤ ((n + 1) * 10) * 10 ^ digits.length := Nat.mul_le_mul_right _ (by omega)
      _ = (n + 1) * (10 * 10 ^ digits.length) := Nat.mul_assoc _ _ _

theorem numeralValue_lt {digits : List Char} (h : ∀ c ∈ digits, c.isDigit = true) :
    numeralValue digits < 10 ^ digits.length := by
  simpa [numeralValue] using foldl_numeral_lt h 0

theorem le_foldl_numeral (digits : List Char) (n : Nat) :
    n ≤ digits.foldl (fun n c => 10 * n + digitValue c) n := by
  induction digits generalizing n with
  | nil => exact Nat.le_refl n
  | cons c digits ih =>
    have later := ih (10 * n + digitValue c)
    rw [List.foldl_cons]
    omega

theorem numeralValue_pos {digits : List Char} (h : Counting digits) : 0 < numeralValue digits := by
  obtain ⟨all, nonzero⟩ := h
  obtain ⟨c, rest, rfl, digit, _⟩ := all.head
  have positive : 0 < digitValue c := by
    simp only [Char.isDigit, Bool.and_eq_true, decide_eq_true_eq, UInt32.le_iff_toNat_le] at digit
    have low : 48 ≤ c.toNat := digit.1
    have other : c.toNat ≠ 48 := by
      intro same
      have zero : c = '0' := by rw [← Char.ofNat_toNat c, same]
      simp [zero] at nonzero
    rw [digitValue]
    omega
  have later := le_foldl_numeral rest (digitValue c)
  have value : numeralValue (c :: rest) =
      rest.foldl (fun n c => 10 * n + digitValue c) (digitValue c) := by simp [numeralValue]
  omega

theorem readNumeral_eq_ok_iff {rule : NumeralRule} {digits : List Char} {n : Nat} :
    readNumeral rule digits = .ok n ↔
      digits.length ≤ maxNumeralDigits ∧ numeralValue digits = n := by
  unfold readNumeral
  split
  · rename_i long
    exact ⟨nofun, fun short => absurd short.1 (Nat.not_le.mpr long)⟩
  · rename_i short
    exact ⟨fun read => ⟨Nat.not_lt.mp short, Except.ok.inj read⟩, fun same => congrArg _ same.2⟩

theorem readNumeral_eq_ok {rule : NumeralRule} {digits : List Char} {n : Nat}
    (h : readNumeral rule digits = .ok n) (fits : ∀ c ∈ digits, c.isDigit = true) :
    n = numeralValue digits ∧ Readable (n : Int) := by
  obtain ⟨short, rfl⟩ := readNumeral_eq_ok_iff.mp h
  have below := numeralValue_lt fits
  have wide : 10 ^ digits.length ≤ 10 ^ maxNumeralDigits := Nat.pow_le_pow_right (by omega) short
  have bound : numeralValue digits < 10 ^ maxNumeralDigits := Nat.lt_of_lt_of_le below wide
  refine ⟨rfl, Int.natCast_nonneg _, ?_⟩
  exact_mod_cast bound

variable {α β : Type}

theorem readable_of_number {rule : NumeralRule} {w : Word} {n : Nat}
    (h : readNumeral rule w.lexeme = .ok n) (fits : w.Fits .number) : Readable (n : Int) :=
  (readNumeral_eq_ok h fits.2.2).2

theorem Grammar.OptionPhrase.build_wellFormed {o : OptionPhrase} {m : Modifier}
    (h : o.build = .ok m) (shaped : o.Shaped) (fit : FitRow [o.tree]) : m.WellFormed := by
  obtain ⟨kind, key, number⟩ := o
  cases number with
  | none =>
    cases h
    exact shaped rfl
  | some number =>
    obtain ⟨value, read, h⟩ := bind_eq_ok h
    cases h
    simp only [OptionPhrase.tree, maybeLeaf, Option.toList, List.map_cons, List.map_nil,
      fitRow_node, fitRow_leaf, fitRow_nil, and_true] at fit
    exact readable_of_number read fit.2

def Clause.numbers : Clause → List Nat
  | target n => [n]
  | targetList values => values
  | doubleTarget n => [n]
  | failure n => [n]

theorem leaf_mem_entryTrees {first w : Word} {others : List (Word × Word)}
    (h : w ∈ first :: others.map Prod.snd) :
    .leaf .number w ∈ entryTrees (some (first, others)) := by
  simp only [entryTrees, List.mem_cons, List.mem_map, List.mem_flatMap] at h ⊢
  rcases h with rfl | ⟨pair, inside, rfl⟩
  · exact .inl rfl
  · exact .inr ⟨pair, inside, by simp⟩

theorem Grammar.ClausePhrase.build_readable {p : ClausePhrase} {c : Clause} (h : p.build = .ok c)
    (fit : FitRow [p.tree]) : c.numbers ≠ [] ∧ ∀ n ∈ c.numbers, Readable (n : Int) := by
  cases p with
  | targetList key opening entries closing =>
    cases entries with
    | none => cases h
    | some entries =>
      obtain ⟨first, others⟩ := entries
      obtain ⟨values, read, h⟩ := bind_eq_ok h
      cases h
      have length := length_of_mapM read
      have each := mem_of_mapM read
      refine ⟨?_, ?_⟩
      · intro empty
        rw [Clause.numbers] at empty
        simp [empty] at length
      · intro n member
        obtain ⟨w, mem, eq⟩ := each n member
        refine readable_of_number eq ?_
        simp only [ClausePhrase.tree, fitRow_node, fitRow_leaf, fitRow_append, fitRow_nil,
          and_true] at fit
        simpa [Tree.Fits, Token.Fits] using fit.2.1.2 _ (leaf_mem_entryTrees mem)
  | _ =>
    obtain ⟨value, read, h⟩ := bind_eq_ok h
    cases h
    simp only [ClausePhrase.tree, fitRow_node, fitRow_leaf, fitRow_nil, and_true] at fit
    exact ⟨by simp [Clause.numbers], by simpa [Clause.numbers] using readable_of_number read fit.2⟩

structure Scoring.From (s : Scoring) (clauses : List Clause) : Prop where
  target : ∀ n ∈ s.target, ∃ k : Nat, .target k ∈ clauses ∧ 0 < k ∧ n = (k : Int)
  values : ∀ values ∈ s.targetValues, ∃ ks, .targetList ks ∈ clauses ∧ values = distinctValues ks
  doubleTarget : ∀ n ∈ s.doubleTarget, ∃ k : Nat, .doubleTarget k ∈ clauses ∧ 0 < k ∧ n = (k : Int)
  failure : ∀ n ∈ s.failure, ∃ k : Nat, .failure k ∈ clauses ∧ 0 < k ∧ n = (k : Int)

theorem Scoring.From.add {s : Scoring} {clauses : List Clause} (h : s.From clauses) {c : Clause}
    (member : c ∈ clauses) : (s.add c).From clauses := by
  obtain ⟨target, values, doubleTarget, failure⟩ := h
  cases c with
  | targetList ks =>
    refine ⟨target, ?_, doubleTarget, failure⟩
    rintro _ ⟨⟩
    exact ⟨ks, member, rfl⟩
  | target k =>
    rw [Scoring.add]
    split
    · exact ⟨target, values, doubleTarget, failure⟩
    · refine ⟨?_, values, doubleTarget, failure⟩
      rintro _ ⟨⟩
      exact ⟨k, member, by omega, rfl⟩
  | doubleTarget k =>
    rw [Scoring.add]
    split
    · exact ⟨target, values, doubleTarget, failure⟩
    · refine ⟨target, values, ?_, failure⟩
      rintro _ ⟨⟩
      exact ⟨k, member, by omega, rfl⟩
  | failure k =>
    rw [Scoring.add]
    split
    · exact ⟨target, values, doubleTarget, failure⟩
    · refine ⟨target, values, doubleTarget, ?_⟩
      rintro _ ⟨⟩
      exact ⟨k, member, by omega, rfl⟩

theorem Scoring.From.foldl {s : Scoring} {all clauses : List Clause} (h : s.From all)
    (inside : ∀ c ∈ clauses, c ∈ all) : (clauses.foldl Scoring.add s).From all := by
  induction clauses generalizing s with
  | nil => exact h
  | cons c clauses ih =>
    rw [List.forall_mem_cons] at inside
    exact ih (h.add inside.1) inside.2

theorem duplicateKind?_eq_none {seen : List ClauseKind} {clauses : List Clause}
    (h : duplicateKind? seen clauses = none) :
    (∀ c ∈ clauses, c.kind ∉ seen) ∧ (clauses.map Clause.kind).Nodup := by
  induction clauses generalizing seen with
  | nil => exact ⟨nofun, .nil⟩
  | cons c clauses ih =>
    rw [duplicateKind?] at h
    split at h
    · cases h
    · rename_i fresh
      obtain ⟨others, distinct⟩ := ih h
      refine ⟨?_, List.nodup_cons.mpr ⟨?_, distinct⟩⟩
      · rw [List.forall_mem_cons]
        exact ⟨fresh, fun d member old => others d member (List.mem_cons_of_mem _ old)⟩
      · intro member
        obtain ⟨d, mem, same⟩ := List.mem_map.mp member
        exact others d mem (by simp [same])

theorem mem_distinctValues {values : List Nat} {n : Int} :
    n ∈ distinctValues values ↔ ∃ k ∈ values, (k : Int) = n := by
  simp [distinctValues, List.mem_eraseDups, List.mem_mergeSort]

theorem Scoring.From.exclusive {s : Scoring} {clauses : List Clause} (h : s.From clauses)
    (distinct : (clauses.map Clause.kind).Nodup)
    (apart : ∀ ks k, .targetList ks ∈ clauses → .doubleTarget k ∉ clauses)
    (listed : s.targetValues.isSome) : s.target = none ∧ s.doubleTarget = none := by
  obtain ⟨values, present⟩ := Option.isSome_iff_exists.mp listed
  obtain ⟨ks, member, _⟩ := h.values values present
  constructor
  · rw [Option.eq_none_iff_forall_ne_some]
    intro n also
    obtain ⟨k, other, _⟩ := h.target n also
    have same := List.inj_on_of_nodup_map distinct member other rfl
    cases same
  · rw [Option.eq_none_iff_forall_ne_some]
    intro n also
    obtain ⟨k, other, _⟩ := h.doubleTarget n also
    exact apart ks k member other

theorem Scoring.From.wellFormed {s : Scoring} {clauses : List Clause} (h : s.From clauses)
    (nonempty : s ≠ .empty)
    (readable : ∀ c ∈ clauses, c.numbers ≠ [] ∧ ∀ n ∈ c.numbers, Readable (n : Int))
    (exclusive : s.targetValues.isSome → s.target = none ∧ s.doubleTarget = none) :
    s.WellFormed := by
  have single {c : Clause} {k : Nat} {n : Int} (numbers : c.numbers = [k]) (member : c ∈ clauses)
      (positive : 0 < k) (same : n = (k : Int)) : 0 < n ∧ Readable n := by
    have each := (readable c member).2 k (by simp [numbers])
    rw [same]
    exact ⟨by omega, each⟩
  refine ⟨nonempty, ?_, ?_, ?_, ?_, exclusive⟩
  · intro n present
    obtain ⟨k, member, positive, same⟩ := h.target n present
    exact single rfl member positive same
  · intro values present
    obtain ⟨ks, member, rfl⟩ := h.values values present
    obtain ⟨filled, each⟩ := readable _ member
    constructor
    · obtain ⟨k, inside⟩ := List.exists_mem_of_ne_nil ks filled
      exact List.ne_nil_of_mem (mem_distinctValues.mpr ⟨k, inside, rfl⟩)
    · intro n mem
      obtain ⟨k, inside, rfl⟩ := mem_distinctValues.mp mem
      exact each k inside
  · intro n present
    obtain ⟨k, member, positive, same⟩ := h.doubleTarget n present
    exact single rfl member positive same
  · intro n present
    obtain ⟨k, member, positive, same⟩ := h.failure n present
    exact single rfl member positive same

theorem Scoring.ofClauses_wellFormed {clauses : List Clause} {text : String} {s : Scoring}
    (h : Scoring.ofClauses clauses text = .ok (some s))
    (readable : ∀ c ∈ clauses, c.numbers ≠ [] ∧ ∀ n ∈ c.numbers, Readable (n : Int)) :
    s.WellFormed := by
  unfold Scoring.ofClauses at h
  split at h
  · cases h
  · rename_i distinct
    dsimp only at h
    split at h
    · cases h
    · rename_i together
      obtain ⟨nonempty, rfl⟩ : clauses.foldl Scoring.add .empty ≠ .empty ∧
          clauses.foldl Scoring.add .empty = s := by simpa using h
      have start : Scoring.From .empty clauses := ⟨nofun, nofun, nofun, nofun⟩
      have built := start.foldl fun c member => member
      have apart := (duplicateKind?_eq_none distinct).2
      refine built.wellFormed nonempty readable (built.exclusive apart ?_)
      intro ks k member other
      refine together ?_
      rw [Bool.and_eq_true, List.any_eq_true, List.any_eq_true]
      exact ⟨⟨_, member, rfl⟩, _, other, rfl⟩

theorem DiceTerm.assemble_wellFormed {limits : Limits} {count : Nat} {sides : Option Nat}
    {modifiers : List Modifier} {clauses : List Clause} {text : String} {t : DiceTerm}
    (h : DiceTerm.assemble limits count sides modifiers clauses text = .ok t)
    (counted : 1 ≤ count ∧ Readable (count : Int)) (sided : ∀ n ∈ sides, Readable (n : Int))
    (modified : ∀ m ∈ modifiers, m.WellFormed)
    (readable : ∀ c ∈ clauses, c.numbers ≠ [] ∧ ∀ n ∈ c.numbers, Readable (n : Int)) :
    t.WellFormed limits := by
  unfold assemble at h
  split at h
  · cases h
  · rename_i few
    have number : 1 ≤ (count : Int) ∧ (count : Int) ≤ limits.maxDice ∧ Readable (count : Int) :=
      ⟨by omega, by omega, counted.2⟩
    cases sides with
    | none =>
      cases h
      exact ⟨number, fun _ => ⟨rfl, rfl⟩, nofun, nofun, nofun⟩
    | some n =>
      dsimp only at h
      split at h
      · cases h
      · split at h
        · cases h
        · rename_i nonzero small
          obtain ⟨scoring, built, rfl⟩ := map_eq_ok h
          refine ⟨number, nofun, ?_, modified, ?_⟩
          · rintro _ ⟨⟩
            exact ⟨by omega, by omega, sided n rfl⟩
          · rintro s ⟨⟩
            exact Scoring.ofClauses_wellFormed built readable

theorem fit_of_mem {trees : List Tree} (fit : FitRow trees) {tree : Tree} (member : tree ∈ trees) :
    FitRow [tree] := by
  simpa [FitRow] using fit tree member

theorem Grammar.DicePhrase.build_wellFormed {limits : Limits} {d : DicePhrase} {t : DiceTerm}
    (h : d.build limits = .ok t) (shaped : d.Shaped) (fit : FitRow [d.tree]) :
    t.WellFormed limits := by
  obtain ⟨⟨count, marker, sides, options⟩, clauses⟩ := d
  obtain ⟨modifiers, readOptions, h⟩ := bind_eq_ok h
  obtain ⟨built, readClauses, h⟩ := bind_eq_ok h
  obtain ⟨n, counted, h⟩ := bind_eq_ok h
  obtain ⟨m, sided, h⟩ := bind_eq_ok h
  simp only [DicePhrase.tree, DiceHead.trees, fitRow_node, fitRow_append, fitRow_leaf, fitRow_nil,
    and_true] at fit
  obtain ⟨⟨fitCount, _, fitRest⟩, fitClauses⟩ := fit
  refine DiceTerm.assemble_wellFormed h ?_ ?_ ?_ ?_
  · cases count with
    | none =>
      cases counted
      exact ⟨Nat.le_refl 1, readable_one⟩
    | some w =>
      have fits : w.Fits .count := by simpa [maybeLeaf] using fitCount
      obtain ⟨rfl, readable⟩ := readNumeral_eq_ok counted fits.2.1.2
      exact ⟨numeralValue_pos fits.2, readable⟩
  · cases sides with
    | fudge w =>
      cases sided
      simp
    | number w =>
      obtain ⟨k, read, rfl⟩ := map_eq_ok sided
      rintro _ ⟨⟩
      rw [SidesPhrase.tree, fitRow_leaf] at fitRest
      exact readable_of_number read fitRest.1
  · intro m member
    obtain ⟨o, mem, eq⟩ := mem_of_mapM readOptions m member
    have leaf : o.tree ∈ sides.tree :: options.map OptionPhrase.tree :=
      List.mem_cons_of_mem _ (List.mem_map_of_mem mem)
    exact OptionPhrase.build_wellFormed eq (shaped.1 o mem) (fit_of_mem fitRest leaf)
  · intro c member
    obtain ⟨p, mem, eq⟩ := mem_of_mapM readClauses c member
    have fits := fitRow_scoringTrees.mp fitClauses p mem
    exact ClausePhrase.build_readable eq (List.forall_mem_singleton.mpr fits)

theorem withoutSign_of_signed {P : List Char → Prop} {s : List Char} (h : Signed P s)
    (unsigned : ∀ {l}, P l → ∃ c rest, l = c :: rest ∧ isSign c = false) : P (withoutSign s) := by
  rcases h with plain | ⟨sign, rest, rfl, isSign, inner⟩
  · obtain ⟨c, rest, rfl, notSign⟩ := unsigned plain
    unfold withoutSign
    split
    · rename_i eq
      cases eq
      cases notSign
    · rename_i eq
      cases eq
      cases notSign
    · exact plain
  · simp only [Grammar.isSign, Bool.or_eq_true, beq_iff_eq] at isSign
    rcases isSign with rfl | rfl <;> exact inner

theorem readInteger_eq_ok {s : List Char} {n : Int} (h : readInteger s = .ok n) :
    ∃ m, readNumeral .integer (withoutSign s) = .ok m ∧ n.natAbs = m := by
  fun_cases withoutSign s
  case case3 minus plus =>
    simp only [readInteger] at h
    obtain ⟨magnitude, read, h⟩ := bind_eq_ok h
    cases h
    exact ⟨magnitude, read, by simp⟩
  all_goals
    obtain ⟨magnitude, read, h⟩ := bind_eq_ok h
    cases h
    exact ⟨magnitude, read, by simp⟩

theorem readInteger_of_digits {s : List Char} (h : Digits s) :
    readInteger s = (readNumeral .integer s).map Int.ofNat := by
  obtain ⟨c, rest, rfl, unsigned⟩ := h.unsigned
  simp only [readInteger]
  split
  · rename_i sign
    cases sign
    cases unsigned
  · rename_i sign
    cases sign
    cases unsigned
  · rfl

theorem readInteger_readable {w : Word} {n : Int} (h : readInteger w.lexeme = .ok n)
    (fits : w.Fits .integer) : Readable n.natAbs := by
  have digits : Digits (withoutSign w.lexeme) := withoutSign_of_signed fits.2 Digits.unsigned
  obtain ⟨m, read, same⟩ := readInteger_eq_ok h
  rw [same]
  exact (readNumeral_eq_ok read digits.2).2

theorem exponent_readFixed (s : List Char) :
    (readFixed s).exponent = -(((withoutSign s).dropWhile Char.isDigit).drop 1).length := by
  fun_cases withoutSign s
  case case3 minus plus => simp [readFixed]
  all_goals rfl

theorem exponent_of_float {w : Word} (fits : w.Fits .float) :
    (readFixed w.lexeme).exponent = -1 ∨ (readFixed w.lexeme).exponent = -2 := by
  have fixed : Fixed (withoutSign w.lexeme) := withoutSign_of_signed fits.2 Fixed.unsigned
  obtain ⟨whole, places, eq, digits, digitPlaces, short⟩ := fixed
  have positive := List.length_pos_iff.mpr digitPlaces.1
  have point : Char.isDigit '.' = false := by decide
  rw [exponent_readFixed, eq, List.dropWhile_append_of_pos digits.2,
    List.dropWhile_cons_of_neg (by simp [point]), List.drop_one, List.tail_cons]
  omega

theorem Grammar.ExprPhrase.build_wellFormed {limits : Limits} {p : ExprPhrase} {e : Expression}
    (h : p.build limits = .ok e) (shaped : p.Shaped) (fit : FitRow p.trees) :
    e.WellFormed limits ∧ (e.IsBinary → p.IsBinary) := by
  induction p generalizing e with
  | dice term =>
    obtain ⟨t, built, h⟩ := bind_eq_ok h
    cases h
    rw [ExprPhrase.trees, fitRow_node] at fit
    exact ⟨DicePhrase.build_wellFormed built shaped fit.1, id⟩
  | float word =>
    cases h
    simp only [ExprPhrase.trees, fitRow_node, fitRow_leaf, fitRow_nil, and_true] at fit
    exact ⟨exponent_of_float fit, id⟩
  | integer word =>
    obtain ⟨n, read, h⟩ := bind_eq_ok h
    cases h
    simp only [ExprPhrase.trees, fitRow_node, fitRow_leaf, fitRow_nil, and_true] at fit
    exact ⟨readInteger_readable read fit, id⟩
  | group opening inner closing ih =>
    obtain ⟨built, read, h⟩ := bind_eq_ok h
    cases h
    simp only [ExprPhrase.trees, fitRow_node, fitRow_leaf, fitRow_nil, and_true] at fit
    exact ⟨(ih read shaped fit.2.1).1, id⟩
  | binary left operator right ih ihRight =>
    obtain ⟨l, readLeft, h⟩ := bind_eq_ok h
    obtain ⟨r, readRight, h⟩ := bind_eq_ok h
    cases h
    rw [ExprPhrase.trees, fitRow_append, fitRow_leaf] at fit
    obtain ⟨shapedLeft, shapedRight, single⟩ := shaped
    have right := ihRight readRight shapedRight fit.2.2
    exact ⟨⟨(ih readLeft shapedLeft fit.1).1, right.1, fun binary => single (right.2 binary)⟩,
      fun _ => trivial⟩

theorem dropWhile_idem (p : Char → Bool) (s : List Char) :
    (s.dropWhile p).dropWhile p = s.dropWhile p := by
  induction s with
  | nil => rfl
  | cons c s ih =>
    cases h : p c with
    | true => simpa [h] using ih
    | false => simp [h]

theorem dropEndWhile_prefix (p : Char → Bool) (s : List Char) : dropEndWhile p s <+: s := by
  have suffix := List.reverse_prefix.mpr (List.dropWhile_suffix p (l := s.reverse))
  rwa [List.reverse_reverse] at suffix

theorem trim_idem (s : List Char) : trim (trim s) = trim s := by
  have start : trimStart (trim s) = trim s := by
    obtain ⟨rest, whole⟩ := dropEndWhile_prefix isSpace (trimStart s)
    change dropEndWhile isSpace (trimStart s) ++ rest = trimStart s at whole
    cases trimmed : trim s with
    | nil => rfl
    | cons c others =>
      have front : trimStart s = c :: (others ++ rest) := by
        rw [← whole]
        change trim s ++ rest = _
        rw [trimmed, List.cons_append]
      have again := dropWhile_idem isSpace s
      change trimStart (trimStart s) = trimStart s at again
      rw [front] at again
      cases space : isSpace c with
      | false => simp [trimStart, space]
      | true =>
        have shorter := length_dropWhile_le isSpace (others ++ rest)
        simp only [trimStart, List.dropWhile_cons, space, if_true] at again
        rw [again, List.length_cons] at shorter
        omega
  rw [trim, start, trim, trimEnd, trimEnd, dropEndWhile, dropEndWhile, List.reverse_reverse,
    dropWhile_idem]

theorem Grammar.CommandPhrase.build_wellFormed {limits : Limits} {p : CommandPhrase} {c : Command}
    (h : p.build limits = .ok c) (shaped : p.Shaped) (fits : p.tree.Fits) :
    c.WellFormed limits := by
  obtain ⟨body, reason⟩ := p
  obtain ⟨built, read, h⟩ := bind_eq_ok h
  cases h
  have row := fits_node.mp fits
  refine ⟨?_, ?_⟩
  · cases body with
    | expr phrase =>
      obtain ⟨e, built, h⟩ := bind_eq_ok read
      cases h
      have inner := fits_node.mp (row phrase.tree (by simp [BodyPhrase.tree]))
      exact (ExprPhrase.build_wellFormed built shaped inner).1
    | repeated phrase =>
      obtain ⟨r, built, h⟩ := bind_eq_ok read
      cases h
      obtain ⟨e, builtInner, built⟩ := bind_eq_ok built
      obtain ⟨times, readTimes, built⟩ := bind_eq_ok built
      have inner := fits_node.mp (row phrase.tree (by simp [BodyPhrase.tree]))
      simp only [List.cons_append, fitRow_append, fitRow_leaf, ExprPhrase.tree, fitRow_node,
        fitRow_nil, and_true] at inner
      obtain ⟨_, fitInner, _, _, _, fitTimes⟩ := inner
      have readable := readable_of_number readTimes fitTimes
      unfold Repetition.assemble at built
      split at built
      · cases built
      · split at built
        · cases built
        · have bounds : 1 ≤ (times : Int) ∧ (times : Int) ≤ limits.maxRepeat := by omega
          cases built
          exact ⟨(ExprPhrase.build_wellFormed builtInner shaped fitInner).1, bounds.1, bounds.2,
            readable⟩
  · intro r present
    cases reason with
    | none => cases present
    | some w =>
      cases present
      simp [trim_idem]

theorem Command.parse_eq_ok {text : String} {limits : Limits} {c : Command}
    (h : Command.parse text limits = .ok c) :
    ∃ phrase, Grammar.read text.toList = .ok phrase ∧ phrase.build limits = .ok c := by
  unfold parse at h
  cases read : Grammar.read text.toList with
  | error place =>
    rw [read] at h
    cases h
  | ok phrase =>
    rw [read] at h
    exact ⟨phrase, rfl, h⟩

theorem Command.parse_wellFormed {text : String} {limits : Limits} {c : Command}
    (h : Command.parse text limits = .ok c) : c.WellFormed limits := by
  obtain ⟨phrase, read, built⟩ := Command.parse_eq_ok h
  obtain ⟨shaped, blanks, parses⟩ := parses_of_read read
  exact CommandPhrase.build_wellFormed built shaped parses.fits

end DiceNotation
