import DiceNotation.Proofs.Command.Reason
import DiceNotation.Proofs.Command.Slices
import DiceNotation.Proofs.Decimal.Text
import DiceNotation.Proofs.Decimal.Value

/-!
Writing commands. The commands that are built are, up to the texts of their parts, exactly those
that are well formed: any such command can be written out word by word without blanks, and what is
written is built into that command again.
-/
namespace DiceNotation

open Text Grammar

variable {limits : Limits}

def DiceTerm.withoutText (t : DiceTerm) : DiceTerm := { t with text := "" }

def Expression.withoutTexts : Expression → Expression
  | dice term => dice term.withoutText
  | integer value => integer value
  | float value => float value
  | group inner => group inner.withoutTexts
  | binary op left right => binary op left.withoutTexts right.withoutTexts

def Body.withoutTexts : Body → Body
  | once e => once e.withoutTexts
  | repeated r => repeated { r with inner := r.inner.withoutTexts, text := "" }

def Command.withoutTexts (c : Command) : Command := ⟨c.body.withoutTexts, c.reason, ""⟩

/-- The list of target values stands for a set: it is in order, and no value is there twice. -/
def Scoring.Ordered (s : Scoring) : Prop := ∀ values ∈ s.targetValues, values.Pairwise (· < ·)

def DiceTerm.Ordered (t : DiceTerm) : Prop := ∀ s ∈ t.scoring, s.Ordered

def Command.Ordered (c : Command) : Prop := ∀ t ∈ c.diceTerms, t.Ordered

theorem DiceTerm.wellFormed_withoutText {t : DiceTerm} :
    t.withoutText.WellFormed limits ↔ t.WellFormed limits := by
  constructor <;> exact fun ⟨count, fudge, sides, modifiers, scoring⟩ =>
    ⟨count, fudge, sides, modifiers, scoring⟩

theorem Expression.isBinary_withoutTexts {e : Expression} :
    e.withoutTexts.IsBinary ↔ e.IsBinary := by
  cases e <;> rfl

theorem Expression.wellFormed_withoutTexts {e : Expression} :
    e.withoutTexts.WellFormed limits ↔ e.WellFormed limits := by
  induction e with
  | dice term => exact DiceTerm.wellFormed_withoutText
  | integer value => rfl
  | float value => rfl
  | group inner ih => exact ih
  | binary op left right ih ihRight =>
    simp only [withoutTexts, WellFormed, ih, ihRight, isBinary_withoutTexts]

theorem Command.wellFormed_withoutTexts {c : Command} :
    c.withoutTexts.WellFormed limits ↔ c.WellFormed limits := by
  have body : c.body.withoutTexts.WellFormed limits ↔ c.body.WellFormed limits := by
    cases c.body with
    | once e => exact Expression.wellFormed_withoutTexts
    | repeated r => exact and_congr_left' Expression.wellFormed_withoutTexts
  constructor
  · intro h
    exact ⟨body.mp h.body, h.reason⟩
  · intro h
    exact ⟨body.mpr h.body, h.reason⟩

theorem Expression.diceTerms_withoutTexts (e : Expression) :
    e.withoutTexts.diceTerms = e.diceTerms.map DiceTerm.withoutText := by
  induction e with
  | dice term => rfl
  | integer value => rfl
  | float value => rfl
  | group inner ih => exact ih
  | binary op left right ih ihRight =>
    rw [withoutTexts, diceTerms, ih, ihRight, diceTerms, List.map_append]

theorem Command.ordered_withoutTexts {c : Command} : c.withoutTexts.Ordered ↔ c.Ordered := by
  have terms : c.withoutTexts.diceTerms = c.diceTerms.map DiceTerm.withoutText := by
    obtain ⟨body, reason, text⟩ := c
    cases body with
    | once e => exact e.diceTerms_withoutTexts
    | repeated r => exact r.inner.diceTerms_withoutTexts
  rw [Ordered, terms, List.forall_mem_map]
  rfl

theorem distinctValues_ordered (values : List Nat) : (distinctValues values).Pairwise (· < ·) := by
  have sorted : ((values.map Int.ofNat).mergeSort (· ≤ ·)).Pairwise (· ≤ ·) :=
    List.pairwise_mergeSort' (· ≤ ·) _
  have distinct := nodup_eraseDups ((values.map Int.ofNat).mergeSort (· ≤ ·))
  refine ((sorted.sublist (eraseDups_sublist _)).and distinct).imp ?_
  intro a b ⟨least, different⟩
  omega

theorem eraseDups_of_nodup {α : Type} [BEq α] [LawfulBEq α] {xs : List α} (h : xs.Nodup) :
    xs.eraseDups = xs := by
  induction xs with
  | nil => simp
  | cons x xs ih =>
    obtain ⟨fresh, distinct⟩ := List.nodup_cons.mp h
    have kept : xs.filter (fun b => !b == x) = xs := by
      rw [List.filter_eq_self]
      intro b member
      simp only [Bool.not_eq_true', beq_eq_false_iff_ne]
      rintro rfl
      exact fresh member
    rw [List.eraseDups_cons, kept, ih distinct]

/-- An ordered list of target values is read from a list of its numbers. -/
theorem distinctValues_of_ordered {values : List Int} (h : values.Pairwise (· < ·))
    (natural : ∀ n ∈ values, 0 ≤ n) : distinctValues (values.map Int.toNat) = values := by
  have numbers : (values.map Int.toNat).map Int.ofNat = values := by
    rw [List.map_map]
    refine (List.map_congr_left ?_).trans (List.map_id values)
    intro n member
    exact Int.toNat_of_nonneg (natural n member)
  have sorted : values.Pairwise (· ≤ ·) := h.imp fun less => by omega
  have distinct : values.Nodup := h.imp fun less => by omega
  rw [distinctValues, numbers, List.mergeSort_eq_self (· ≤ ·) sorted, eraseDups_of_nodup distinct]

theorem Scoring.ofClauses_ordered {clauses : List Clause} {text : String} {s : Scoring}
    (h : Scoring.ofClauses clauses text = .ok (some s)) : s.Ordered := by
  unfold Scoring.ofClauses at h
  split at h
  · cases h
  · dsimp only at h
    split at h
    · cases h
    · obtain ⟨_, rfl⟩ : clauses.foldl Scoring.add .empty ≠ .empty ∧
          clauses.foldl Scoring.add .empty = s := by simpa using h
      have start : Scoring.From .empty clauses := ⟨nofun, nofun, nofun, nofun⟩
      have built := start.foldl fun c member => member
      intro values present
      obtain ⟨ks, _, rfl⟩ := built.values values present
      exact distinctValues_ordered ks

theorem Grammar.DicePhrase.build_ordered {d : DicePhrase} {t : DiceTerm}
    (h : d.build limits = .ok t) : t.Ordered := by
  obtain ⟨modifiers, _, h⟩ := bind_eq_ok h
  obtain ⟨clauses, _, h⟩ := bind_eq_ok h
  obtain ⟨count, _, h⟩ := bind_eq_ok h
  obtain ⟨sides, _, h⟩ := bind_eq_ok h
  unfold DiceTerm.assemble at h
  split at h
  · cases h
  · cases sides with
    | none =>
      cases h
      exact nofun
    | some sides =>
      dsimp only at h
      split at h
      · cases h
      · split at h
        · cases h
        · obtain ⟨scoring, built, rfl⟩ := map_eq_ok h
          intro s present
          obtain rfl : scoring = some s := present
          exact Scoring.ofClauses_ordered built

theorem Grammar.ExprPhrase.build_ordered {p : ExprPhrase} {e : Expression}
    (h : p.build limits = .ok e) : ∀ t ∈ e.diceTerms, t.Ordered := by
  induction p generalizing e with
  | dice d =>
    obtain ⟨t, built, h⟩ := bind_eq_ok h
    cases h
    simpa [Expression.diceTerms] using DicePhrase.build_ordered built
  | float word =>
    cases h
    exact List.forall_mem_nil _
  | integer word =>
    obtain ⟨n, _, h⟩ := bind_eq_ok h
    cases h
    exact List.forall_mem_nil _
  | group opening inner closing ih =>
    obtain ⟨inside, built, h⟩ := bind_eq_ok h
    cases h
    have terms := ih built
    exact terms
  | binary left operator right ih ihRight =>
    obtain ⟨a, builtLeft, h⟩ := bind_eq_ok h
    obtain ⟨b, builtRight, h⟩ := bind_eq_ok h
    cases h
    exact List.forall_mem_append.mpr ⟨ih builtLeft, ihRight builtRight⟩

theorem Command.parse_ordered {text : String} {c : Command}
    (h : Command.parse text limits = .ok c) : c.Ordered := by
  obtain ⟨⟨body, reason⟩, _, h⟩ := Command.parse_eq_ok h
  obtain ⟨found, built, h⟩ := bind_eq_ok h
  cases h
  cases body with
  | expr p =>
    obtain ⟨e, builtExpr, h⟩ := bind_eq_ok built
    cases h
    exact p.build_ordered builtExpr
  | repeated p =>
    obtain ⟨r, builtRepeat, h⟩ := bind_eq_ok built
    cases h
    exact p.inner.build_ordered (p.build_inner builtRepeat).1

theorem digits_numeral (n : Nat) : Digits (numeral n) :=
  ⟨Nat.toDigits_ne_nil, fun _ => isDigit_of_mem_numeral⟩

theorem digits_singleton {c : Char} (h : c.isDigit = true) : Digits [c] :=
  ⟨List.cons_ne_nil _ _, List.forall_mem_singleton.mpr h⟩

theorem counting_numeral {n : Nat} (h : 0 < n) : Counting (numeral n) := by
  refine ⟨digits_numeral n, ?_⟩
  intro zero
  obtain ⟨rest, eq⟩ := List.head?_eq_some_iff.mp zero
  have value := numeralValue_numeral n
  have behind : numeralValue ('0' :: rest) = numeralValue rest := numeralValue_zeros 1 rest
  have below : numeralValue rest < 10 ^ rest.length :=
    numeralValue_lt fun c member => isDigit_of_mem_numeral (n := n) (by simp [eq, member])
  rw [eq, behind] at value
  rw [value] at below
  -- Without the zero in front the numeral of the same number would be shorter than it is.
  have positive : 0 < rest.length := by
    by_contra empty
    rw [Nat.eq_zero_of_not_pos empty] at below
    omega
  have short := (digitCount_le_iff positive).mpr below
  rw [digitCount, eq, List.length_cons] at short
  omega

theorem Grammar.Digits.zeros {digits : List Char} (h : Digits digits) (k : ℕ) :
    Digits (List.replicate k '0' ++ digits) := by
  refine ⟨List.append_ne_nil_of_right_ne_nil _ h.1, ?_⟩
  rw [List.forall_mem_append]
  refine ⟨?_, h.2⟩
  intro c member
  rw [List.eq_of_mem_replicate member]
  rfl

theorem Text.signedNumeral_natCast (n : ℕ) : signedNumeral n = String.ofList (numeral n) := by
  rw [signedNumeral, if_neg (by omega), Int.natAbs_natCast]

def Grammar.Word.bare (lexeme : List Char) : Word := ⟨[], lexeme⟩

def Grammar.Word.ofNumber (n : Int) : Word := .bare (numeral n.natAbs)

theorem Grammar.Word.fits_bare {t : Terminal} {l : List Char} (h : t.Matches l) :
    (Word.bare l).Fits t := ⟨nofun, h⟩

theorem Grammar.Word.fits_literal {t : Terminal} {l : List Char} (h : t.literal? = some l) :
    (Word.bare l).Fits t := by
  refine fits_bare ?_
  simp only [Terminal.Matches, h]

theorem Grammar.Word.fits_ofNumber (n : Int) : (Word.ofNumber n).Fits .number :=
  fits_bare (digits_numeral _)

theorem readNumeral_ofNumber {rule : NumeralRule} {n : Int} (h : Readable n) :
    readNumeral rule (Word.ofNumber n).lexeme = .ok n.toNat := by
  have small : n.natAbs < 10 ^ maxNumeralDigits := by
    have bound := h.2
    zify
    rwa [abs_of_nonneg h.1]
  have short : (numeral n.natAbs).length ≤ maxNumeralDigits :=
    (digitCount_le_iff (by decide)).mpr small
  have natural := h.1
  change readNumeral rule (numeral n.natAbs) = _
  rw [readNumeral, if_neg (Nat.not_lt.mpr short), numeralValue_numeral]
  congr 1
  omega

def Modifier.phrase (m : Modifier) : OptionPhrase :=
  ⟨m.kind, .bare m.kind.symbol.toList, m.value.map Word.ofNumber⟩

def entriesOf : List Nat → Option (Word × List (Word × Word))
  | [] => none
  | n :: more => some (.ofNumber n, more.map fun m : Nat => (.bare [','], .ofNumber m))

def Clause.phrase : Clause → ClausePhrase
  | target n => .target (.bare ['t']) (.ofNumber n)
  | targetList values =>
      .targetList (.bare ['t']) (.bare ['[']) (entriesOf values) (.bare [']'])
  | doubleTarget n => .doubleTarget (.bare ['t', 't']) (.ofNumber n)
  | failure n => .failure (.bare ['f']) (.ofNumber n)

def Scoring.clauses (s : Scoring) : List Clause :=
  (s.target.map fun n => Clause.target n.toNat).toList ++
    (s.targetValues.map fun values => Clause.targetList (values.map Int.toNat)).toList ++
    (s.doubleTarget.map fun n => Clause.doubleTarget n.toNat).toList ++
    (s.failure.map fun n => Clause.failure n.toNat).toList

def DiceTerm.sidesPhrase (t : DiceTerm) : SidesPhrase :=
  match t.sides with
  | none => .fudge (.bare ['F'])
  | some n => .number (.ofNumber n)

def DiceTerm.phrase (t : DiceTerm) : DicePhrase :=
  ⟨⟨some (.ofNumber t.count), .bare ['d'], t.sidesPhrase, t.modifiers.map Modifier.phrase⟩,
    (t.scoring.elim [] Scoring.clauses).map Clause.phrase⟩

theorem Modifier.phrase_shaped {m : Modifier} (h : m.WellFormed) : m.phrase.Shaped := by
  obtain ⟨kind, value⟩ := m
  cases value with
  | none => exact fun _ => h
  | some n => exact nofun

theorem Modifier.phrase_fits (m : Modifier) : m.phrase.tree.Fits := by
  have key : (Word.bare m.kind.symbol.toList).Fits m.phrase.terminal := by
    obtain ⟨kind, value⟩ := m
    apply Word.fits_literal
    cases kind <;> simp [phrase, OptionPhrase.terminal, Word.bare, ModifierKind.symbol,
      Terminal.literal?]
  have number : FitRow (maybeLeaf .number m.phrase.number) := by
    obtain ⟨kind, value⟩ := m
    cases value with
    | none => exact fitRow_nil
    | some n => exact (fitRow_leaf _ _ _).mpr ⟨Word.fits_ofNumber n, fitRow_nil⟩
  rw [OptionPhrase.tree, fits_node, fitRow_node, fitRow_leaf]
  exact ⟨⟨key, number⟩, fitRow_nil⟩

theorem Modifier.phrase_build {m : Modifier} (h : m.WellFormed) : m.phrase.build = .ok m := by
  obtain ⟨kind, value⟩ := m
  cases value with
  | none => rfl
  | some n =>
    have readable : Readable n := h
    have natural : (n.toNat : Int) = n := Int.toNat_of_nonneg readable.1
    simp only [phrase, OptionPhrase.build, Option.map_some, readNumeral_ofNumber readable]
    change Except.ok (Modifier.mk kind (some (n.toNat : Int))) = _
    rw [natural]

theorem fitRow_entriesOf (values : List Nat) : FitRow (entryTrees (entriesOf values)) := by
  cases values with
  | nil => exact fitRow_nil
  | cons n more =>
    refine (fitRow_leaf _ _ _).mpr ⟨Word.fits_ofNumber n, ?_⟩
    induction more with
    | nil => exact fitRow_nil
    | cons m more ih =>
      rw [List.map_cons, List.flatMap_cons, fitRow_append, fitRow_leaf, fitRow_leaf]
      exact ⟨⟨Word.fits_literal rfl, Word.fits_ofNumber m, fitRow_nil⟩, ih⟩

theorem Clause.phrase_fits (c : Clause) : c.phrase.tree.Fits := by
  cases c with
  | targetList values =>
    simp only [phrase, ClausePhrase.tree, fits_node, fitRow_node, fitRow_leaf, List.cons_append,
      fitRow_append, fitRow_nil, and_true]
    exact ⟨Word.fits_literal rfl, Word.fits_literal rfl, fitRow_entriesOf values,
      Word.fits_literal rfl⟩
  | _ =>
    simp only [phrase, ClausePhrase.tree, fits_node, fitRow_node, fitRow_leaf, fitRow_nil, and_true]
    exact ⟨Word.fits_literal rfl, Word.fits_ofNumber _⟩

theorem Clause.phrase_build {c : Clause} (filled : c.numbers ≠ [])
    (readable : ∀ n ∈ c.numbers, Readable (n : Int)) : c.phrase.build = .ok c := by
  have read {rule : NumeralRule} {n : Nat} (h : Readable (n : Int)) :
      readNumeral rule (Word.ofNumber n).lexeme = .ok n := readNumeral_ofNumber h
  cases c with
  | targetList values =>
    cases values with
    | nil => exact absurd rfl filled
    | cons n more =>
      have words : Word.ofNumber n ::
          (more.map fun m : Nat => (Word.bare [','], Word.ofNumber m)).map Prod.snd =
            (n :: more).map fun m : Nat => Word.ofNumber m := by
        rw [List.map_cons, List.map_map]
        rfl
      have numbers : ((n :: more).map fun m : Nat => Word.ofNumber m).mapM
          (fun w => readNumeral .targetList w.lexeme) = .ok (n :: more) :=
        mapM_map_eq_ok fun m member => read (readable m member)
      simp only [phrase, entriesOf, ClausePhrase.build, words, numbers]
      rfl
  | _ =>
    have written := readable _ List.mem_cons_self
    simp only [phrase, ClausePhrase.build, read written]
    rfl

theorem Scoring.length_clauses {s : Scoring} (h : s.WellFormed) : s.clauses.length ≤ 3 := by
  obtain ⟨target, values, doubleTarget, failure⟩ := s
  cases values with
  | none => cases target <;> cases doubleTarget <;> cases failure <;> simp [clauses]
  | some values =>
    obtain ⟨rfl, rfl⟩ : target = none ∧ doubleTarget = none := h.exclusive rfl
    cases failure <;> simp [clauses]

theorem Scoring.clauses_readable {s : Scoring} (h : s.WellFormed) :
    ∀ c ∈ s.clauses, c.numbers ≠ [] ∧ ∀ n ∈ c.numbers, Readable (n : Int) := by
  have natural {n : Int} (readable : Readable n) : Readable (n.toNat : Int) := by
    rwa [Int.toNat_of_nonneg readable.1]
  obtain ⟨_, target, values, doubleTarget, failure, _⟩ := h
  intro c member
  simp only [clauses, List.mem_append, Option.mem_toList, Option.map_eq_some_iff] at member
  obtain ((⟨n, present, rfl⟩ | ⟨listed, present, rfl⟩) | ⟨n, present, rfl⟩) | ⟨n, present, rfl⟩ :=
    member
  · simpa [Clause.numbers] using natural (target n present).2
  · obtain ⟨filled, each⟩ := values listed present
    refine ⟨by simpa [Clause.numbers] using filled, ?_⟩
    exact List.forall_mem_map.mpr fun n member => natural (each n member)
  · simpa [Clause.numbers] using natural (doubleTarget n present).2
  · simpa [Clause.numbers] using natural (failure n present).2

theorem Scoring.foldl_clauses {s : Scoring} (h : s.WellFormed) (ordered : s.Ordered) :
    s.clauses.foldl Scoring.add .empty = s := by
  obtain ⟨_, target, values, doubleTarget, failure, _⟩ := h
  obtain ⟨t, v, tt, f⟩ := s
  have first : (t.map fun n => Clause.target n.toNat).toList.foldl add empty =
      ⟨t, none, none, none⟩ := by
    cases t with
    | none => rfl
    | some n =>
      have positive := (target n rfl).1
      simp only [Option.map_some, Option.toList_some, List.foldl_cons, List.foldl_nil, add, empty]
      rw [if_neg (by omega), Int.toNat_of_nonneg (by omega)]
  have second : (v.map fun values => Clause.targetList (values.map Int.toNat)).toList.foldl add
      ⟨t, none, none, none⟩ = ⟨t, v, none, none⟩ := by
    cases v with
    | none => rfl
    | some listed =>
      simp only [Option.map_some, Option.toList_some, List.foldl_cons, List.foldl_nil, add]
      rw [distinctValues_of_ordered (ordered listed rfl)
        fun n member => ((values listed rfl).2 n member).1]
  have third : (tt.map fun n => Clause.doubleTarget n.toNat).toList.foldl add
      ⟨t, v, none, none⟩ = ⟨t, v, tt, none⟩ := by
    cases tt with
    | none => rfl
    | some n =>
      have positive := (doubleTarget n rfl).1
      simp only [Option.map_some, Option.toList_some, List.foldl_cons, List.foldl_nil, add]
      rw [if_neg (by omega), Int.toNat_of_nonneg (by omega)]
  have fourth : (f.map fun n => Clause.failure n.toNat).toList.foldl add
      ⟨t, v, tt, none⟩ = ⟨t, v, tt, f⟩ := by
    cases f with
    | none => rfl
    | some n =>
      have positive := (failure n rfl).1
      simp only [Option.map_some, Option.toList_some, List.foldl_cons, List.foldl_nil, add]
      rw [if_neg (by omega), Int.toNat_of_nonneg (by omega)]
  rw [clauses, List.foldl_append, List.foldl_append, List.foldl_append, first, second, third,
    fourth]

theorem Scoring.ofClauses_clauses {s : Scoring} (h : s.WellFormed) (ordered : s.Ordered)
    (text : String) : Scoring.ofClauses s.clauses text = .ok (some s) := by
  have folded := foldl_clauses h ordered
  have distinct : duplicateKind? [] s.clauses = none := by
    obtain ⟨t, v, tt, f⟩ := s
    cases v with
    | none => cases t <;> cases tt <;> cases f <;> simp [clauses, duplicateKind?, Clause.kind]
    | some values =>
      obtain ⟨rfl, rfl⟩ : t = none ∧ tt = none := h.exclusive rfl
      cases f <;> simp [clauses, duplicateKind?, Clause.kind]
  unfold ofClauses
  rw [distinct]
  dsimp only
  rw [if_neg, folded, if_neg h.nonempty]
  obtain ⟨t, v, tt, f⟩ := s
  cases v with
  | none => cases t <;> cases tt <;> cases f <;> simp [clauses, Clause.kind]
  | some values =>
    obtain ⟨rfl, rfl⟩ : t = none ∧ tt = none := h.exclusive rfl
    cases f <;> simp [clauses, Clause.kind]

theorem DiceTerm.phrase_shaped {t : DiceTerm} (h : t.WellFormed limits) : t.phrase.Shaped := by
  obtain ⟨_, _, _, modifiers, scoring⟩ := h
  constructor
  · exact List.forall_mem_map.mpr fun m member => Modifier.phrase_shaped (modifiers m member)
  · change ((t.scoring.elim [] Scoring.clauses).map Clause.phrase).length ≤ 3
    rw [List.length_map]
    cases scored : t.scoring with
    | none => exact Nat.zero_le 3
    | some s => exact Scoring.length_clauses (scoring s scored)

theorem DiceTerm.phrase_fits {t : DiceTerm} (h : t.WellFormed limits) : t.phrase.tree.Fits := by
  have counting : (Word.ofNumber t.count).Fits .count :=
    Word.fits_bare (counting_numeral (by have := h.count.1; omega))
  have sided : FitRow [t.sidesPhrase.tree] := by
    unfold sidesPhrase
    cases t.sides with
    | none => exact (fitRow_leaf _ _ _).mpr ⟨Word.fits_bare ⟨'F', rfl, rfl⟩, fitRow_nil⟩
    | some n => exact (fitRow_leaf _ _ _).mpr ⟨Word.fits_ofNumber n, fitRow_nil⟩
  have modified : FitRow ((t.modifiers.map Modifier.phrase).map OptionPhrase.tree) :=
    List.forall_mem_map.mpr (List.forall_mem_map.mpr fun m _ => m.phrase_fits)
  rw [DicePhrase.tree, fits_node, fitRow_append, fitRow_scoringTrees]
  refine ⟨?_, List.forall_mem_map.mpr fun c _ => c.phrase_fits⟩
  have rest := List.forall_mem_cons.mpr ⟨sided _ List.mem_cons_self, modified⟩
  refine (fitRow_append _ _).mpr ⟨(fitRow_leaf _ _ _).mpr ⟨counting, fitRow_nil⟩, ?_⟩
  exact (fitRow_leaf _ _ _).mpr ⟨Word.fits_bare ⟨'d', rfl, rfl⟩, rest⟩

theorem DiceTerm.phrase_build {t : DiceTerm} (h : t.WellFormed limits) (ordered : t.Ordered) :
    t.phrase.build limits = .ok { t with text := slice t.phrase.spell } := by
  obtain ⟨count, fudge, sides, modifiers, scoring⟩ := h
  have options : (t.modifiers.map Modifier.phrase).mapM OptionPhrase.build = .ok t.modifiers :=
    mapM_map_eq_ok fun m member => Modifier.phrase_build (modifiers m member)
  have clauses : ((t.scoring.elim [] Scoring.clauses).map Clause.phrase).mapM ClausePhrase.build =
      .ok (t.scoring.elim [] Scoring.clauses) := by
    refine mapM_map_eq_ok fun c member => ?_
    cases scored : t.scoring with
    | none => simp [scored] at member
    | some s =>
      rw [scored] at member
      obtain ⟨filled, readable⟩ := Scoring.clauses_readable (scoring s scored) c member
      exact Clause.phrase_build filled readable
  have counted : readCount (some (.ofNumber t.count)) = .ok t.count.toNat :=
    readNumeral_ofNumber count.2.2
  have natural : (t.count.toNat : Int) = t.count := Int.toNat_of_nonneg count.2.2.1
  have few : ¬ limits.maxDice < t.count := Int.not_lt.mpr count.2.1
  unfold DicePhrase.build
  generalize slice t.phrase.spell = text
  simp only [phrase, options, clauses, counted]
  cases sided : t.sides with
  | none =>
    obtain ⟨plain, unscored⟩ := fudge sided
    simp only [sidesPhrase, sided, plain, unscored]
    change DiceTerm.assemble limits t.count.toNat none [] [] text = _
    rw [assemble, natural, if_neg few]
  | some n =>
    obtain ⟨positive, bound, readable⟩ := sides n sided
    have number : readNumeral .dice (Word.ofNumber n).lexeme = .ok n.toNat :=
      readNumeral_ofNumber readable
    have sidedNatural : (n.toNat : Int) = n := Int.toNat_of_nonneg readable.1
    have scored : Scoring.ofClauses (t.scoring.elim [] Scoring.clauses) text = .ok t.scoring := by
      cases present : t.scoring with
      | none => rfl
      | some s => exact Scoring.ofClauses_clauses (scoring s present) (ordered s present) text
    simp only [sidesPhrase, sided, readSides, number]
    change DiceTerm.assemble limits t.count.toNat (some n.toNat) t.modifiers
      (t.scoring.elim [] Scoring.clauses) text = _
    rw [assemble, natural, if_neg few, sidedNatural, if_neg (by omega), if_neg (by omega), scored]
    rfl

theorem signed_signedNumeral (n : Int) : Signed Digits (signedNumeral n).toList := by
  rw [signedNumeral, String.toList_ofList]
  split
  · exact .inr ⟨'-', _, rfl, rfl, digits_numeral _⟩
  · exact .inl (digits_numeral _)

theorem readInteger_signedNumeral {n : Int} (h : Readable n.natAbs) :
    readInteger (signedNumeral n).toList = .ok n := by
  have read : readNumeral .integer (numeral n.natAbs) = .ok n.natAbs := readNumeral_ofNumber h
  rw [signedNumeral, String.toList_ofList]
  split
  · rename_i negative
    simp only [readInteger, read]
    change Except.ok (-(n.natAbs : Int)) = _
    congr 1
    omega
  · rename_i natural
    rw [readInteger_of_digits (digits_numeral _), read]
    change Except.ok (n.natAbs : Int) = _
    congr 1
    omega

theorem Decimal.textChars_places {d : Decimal} (h : d.exponent = -1 ∨ d.exponent = -2) :
    ∃ whole places, d.textChars = (if d.negative then ['-'] else []) ++ whole ++ '.' :: places ∧
      Digits whole ∧ Digits places ∧ numeralValue (whole ++ places) = d.coefficient ∧
      -(places.length : Int) = d.exponent := by
  have nonempty : numeral d.coefficient ≠ [] := Nat.toDigits_ne_nil
  have long : 0 < (numeral d.coefficient).length := Nat.length_toDigits_pos
  obtain ⟨whole, places, spelled, front, digits, same, length⟩ :=
    placed_parts nonempty (fun x => isDigit_of_mem_numeral)
      (d.exponent + (numeral d.coefficient).length) (by omega)
  have behind : places ≠ [] := by
    rintro rfl
    rw [List.length_nil] at length
    omega
  rw [pointed, if_neg behind] at spelled
  rw [List.forall_mem_append] at digits
  refine ⟨whole, places, ?_, ⟨front, digits.1⟩, ⟨behind, digits.2⟩,
    same.trans (numeralValue_numeral _), by omega⟩
  have near : d.exponent ≤ 0 ∧ -6 < d.exponent + (numeral d.coefficient).length := by omega
  simp only [textChars, if_pos near, spelled]
  split <;> rfl

theorem Decimal.signed_textChars {d : Decimal} (h : d.exponent = -1 ∨ d.exponent = -2) :
    Signed Fixed d.textChars := by
  obtain ⟨whole, places, written, front, behind, _, length⟩ := textChars_places h
  have fixed : Fixed (whole ++ '.' :: places) := ⟨whole, places, rfl, front, behind, by omega⟩
  rw [written, List.append_assoc]
  split
  · exact .inr ⟨'-', _, rfl, rfl, fixed⟩
  · exact .inl fixed

theorem readFixed_textChars {d : Decimal} (h : d.exponent = -1 ∨ d.exponent = -2) :
    readFixed d.textChars = d := by
  obtain ⟨whole, places, written, front, behind, value, length⟩ := Decimal.textChars_places h
  obtain ⟨negative, coefficient, exponent⟩ := d
  have stops : ∀ x ∈ ('.' :: places).head?, x.isDigit = false := by
    rintro _ ⟨⟩
    decide
  obtain ⟨taken, dropped⟩ := Decimal.span_digits front.2 stops
  rw [written, List.append_assoc]
  cases negative with
  | true =>
    simp only [if_true, List.cons_append, List.nil_append, readFixed, taken, dropped,
      List.drop_one, List.tail_cons, value, length]
  | false =>
    obtain ⟨c, rest, eq, unsigned⟩ := front.unsigned
    rw [if_neg Bool.false_ne_true, List.nil_append]
    rw [eq] at taken dropped value ⊢
    rw [List.cons_append] at taken dropped
    simp only [readFixed, List.cons_append]
    split
    · rename_i sign
      cases sign
      cases unsigned
    · rename_i sign
      cases sign
      cases unsigned
    · simp only [taken, dropped, List.drop_one, List.tail_cons, value, length]

def Expression.phrase : Expression → ExprPhrase
  | dice term => .dice term.phrase
  | integer value => .integer (.bare (signedNumeral value).toList)
  | float value => .float (.bare value.textChars)
  | group inner => .group (.bare ['(']) inner.phrase (.bare [')'])
  | binary op left right => .binary left.phrase (.bare op.symbol.toList) right.phrase

theorem Expression.phrase_isBinary {e : Expression} : e.phrase.IsBinary ↔ e.IsBinary := by
  cases e <;> rfl

theorem Expression.phrase_shaped {e : Expression} (h : e.WellFormed limits) :
    e.phrase.Shaped := by
  induction e with
  | dice term => exact DiceTerm.phrase_shaped h
  | integer value => trivial
  | float value => trivial
  | group inner ih => exact ih h
  | binary op left right ih ihRight =>
    obtain ⟨wellLeft, wellRight, single⟩ := h
    exact ⟨ih wellLeft, ihRight wellRight, fun binary => single (phrase_isBinary.mp binary)⟩

theorem Operator.symbol_isOperator (op : Operator) : OneOf isOperator op.symbol.toList := by
  cases op <;> simp [symbol, OneOf, isOperator]

theorem readOperator_symbol (op : Operator) : readOperator op.symbol.toList = op := by
  cases op <;> simp [Operator.symbol, readOperator]

theorem Expression.phrase_fits {e : Expression} (h : e.WellFormed limits) :
    FitRow e.phrase.trees := by
  induction e with
  | dice term => exact ExprPhrase.fits_dice.mpr (DiceTerm.phrase_fits h)
  | integer value =>
    simp only [phrase, ExprPhrase.trees, fitRow_node, fitRow_leaf, fitRow_nil, and_true]
    exact Word.fits_bare (signed_signedNumeral value)
  | float value =>
    simp only [phrase, ExprPhrase.trees, fitRow_node, fitRow_leaf, fitRow_nil, and_true]
    exact Word.fits_bare (Decimal.signed_textChars h)
  | group inner ih =>
    simp only [phrase, ExprPhrase.trees, fitRow_node, fitRow_leaf, fitRow_nil, and_true]
    exact ⟨Word.fits_literal rfl, ih h, Word.fits_literal rfl⟩
  | binary op left right ih ihRight =>
    obtain ⟨wellLeft, wellRight, _⟩ := h
    rw [phrase, ExprPhrase.trees, fitRow_append, fitRow_leaf]
    exact ⟨ih wellLeft, Word.fits_bare op.symbol_isOperator, ihRight wellRight⟩

theorem Expression.phrase_build {e : Expression} (h : e.WellFormed limits)
    (ordered : ∀ t ∈ e.diceTerms, t.Ordered) :
    ∃ built, e.phrase.build limits = .ok built ∧ built.withoutTexts = e.withoutTexts := by
  induction e with
  | dice term =>
    have build := DiceTerm.phrase_build h (ordered term List.mem_cons_self)
    refine ⟨.dice { term with text := slice term.phrase.spell }, ?_, rfl⟩
    rw [phrase, ExprPhrase.build, build]
    rfl
  | integer value =>
    refine ⟨.integer value, ?_, rfl⟩
    have read := readInteger_signedNumeral h
    change (readInteger (signedNumeral value).toList).bind _ = _
    rw [read]
    rfl
  | float value =>
    refine ⟨.float value, ?_, rfl⟩
    change Except.ok (float (readFixed value.textChars)) = _
    rw [readFixed_textChars h]
  | group inner ih =>
    obtain ⟨built, read, same⟩ := ih h ordered
    refine ⟨.group built, ?_, by rw [withoutTexts, same, withoutTexts]⟩
    rw [phrase, ExprPhrase.build, read]
    rfl
  | binary op left right ih ihRight =>
    obtain ⟨wellLeft, wellRight, _⟩ := h
    rw [diceTerms, List.forall_mem_append] at ordered
    obtain ⟨builtLeft, readLeft, sameLeft⟩ := ih wellLeft ordered.1
    obtain ⟨builtRight, readRight, sameRight⟩ := ihRight wellRight ordered.2
    refine ⟨.binary op builtLeft builtRight, ?_, ?_⟩
    · rw [phrase, ExprPhrase.build, readLeft, readRight]
      change Except.ok (binary (readOperator op.symbol.toList) builtLeft builtRight) = _
      rw [readOperator_symbol]
    · rw [withoutTexts, sameLeft, sameRight, withoutTexts]

def RepeatMode.word : RepeatMode → Option Word
  | plain => none
  | sum => some (.bare ['+'])
  | sort => some (.bare ['#'])

theorem RepeatMode.fits_word (mode : RepeatMode) : FitRow (maybeLeaf .repeatMode mode.word) := by
  cases mode with
  | plain => exact fitRow_nil
  | sum => exact (fitRow_leaf _ _ _).mpr ⟨Word.fits_bare ⟨'+', rfl, rfl⟩, fitRow_nil⟩
  | sort => exact (fitRow_leaf _ _ _).mpr ⟨Word.fits_bare ⟨'#', rfl, rfl⟩, fitRow_nil⟩

theorem RepeatMode.read_word (mode : RepeatMode) : readMode mode.word = mode := by
  cases mode <;> rfl

def Repetition.phrase (r : Repetition) : RepeatPhrase :=
  ⟨.bare ['('], r.inner.phrase, .bare [')'], .bare ['^'], r.mode.word, .ofNumber r.times⟩

def Body.phrase : Body → BodyPhrase
  | once e => .expr e.phrase
  | repeated r => .repeated r.phrase

theorem Body.phrase_shaped {b : Body} (h : b.WellFormed limits) : b.phrase.Shaped := by
  cases b with
  | once e => exact Expression.phrase_shaped h
  | repeated r => exact Expression.phrase_shaped h.1

theorem Body.phrase_fits {b : Body} (h : b.WellFormed limits) : b.phrase.tree.Fits := by
  cases b with
  | once e => exact fits_node.mpr (Expression.phrase_fits h)
  | repeated r =>
    refine fits_node.mpr ?_
    simp only [List.cons_append, fitRow_append, fitRow_leaf, ExprPhrase.tree, fitRow_node,
      fitRow_nil, and_true]
    exact ⟨Word.fits_literal rfl, Expression.phrase_fits h.1, Word.fits_literal rfl,
      Word.fits_literal rfl, r.mode.fits_word, Word.fits_ofNumber _⟩

theorem Body.phrase_build {b : Body} (h : b.WellFormed limits)
    (ordered : ∀ t ∈ b.diceTerms, t.Ordered) :
    ∃ built, b.phrase.build limits = .ok built ∧ built.withoutTexts = b.withoutTexts := by
  cases b with
  | once e =>
    obtain ⟨built, read, same⟩ := Expression.phrase_build h ordered
    refine ⟨.once built, ?_, by rw [withoutTexts, same, withoutTexts]⟩
    rw [phrase, BodyPhrase.build, read]
    rfl
  | repeated r =>
    obtain ⟨inside, positive, bound, readable⟩ := h
    obtain ⟨built, read, same⟩ := Expression.phrase_build inside ordered
    have times : readNumeral .repetition (Word.ofNumber r.times).lexeme = .ok r.times.toNat :=
      readNumeral_ofNumber readable
    have natural : (r.times.toNat : Int) = r.times := Int.toNat_of_nonneg readable.1
    let text := slice r.inner.phrase.spell
    have assembled : Repetition.assemble limits built r.times.toNat r.mode text =
        .ok ⟨built, r.times, r.mode, text⟩ := by
      rw [Repetition.assemble, natural, if_neg (by omega), if_neg (by omega)]
    refine ⟨.repeated ⟨built, r.times, r.mode, text⟩, ?_, by simp only [withoutTexts, same]⟩
    simp only [phrase, BodyPhrase.build, Repetition.phrase, RepeatPhrase.build, read, times,
      r.mode.read_word]
    change (Repetition.assemble limits built r.times.toNat r.mode text).bind _ = _
    rw [assembled]
    rfl

def Body.written (b : Body) : String := slice b.phrase.spell

theorem Body.parse_written {b : Body} (h : b.WellFormed limits)
    (ordered : ∀ t ∈ b.diceTerms, t.Ordered) :
    ∃ built, Command.parse b.written limits = .ok ⟨built, none, b.written⟩ ∧
      built.withoutTexts = b.withoutTexts := by
  obtain ⟨built, read, same⟩ := phrase_build h ordered
  exact ⟨built, Command.parse_slice (phrase_shaped h) (phrase_fits h) read, same⟩

theorem Command.parse_float {d : Decimal} (places : d.exponent = -1 ∨ d.exponent = -2)
    (limits : Limits) : Command.parse d.text limits = .ok ⟨.once (.float d), none, d.text⟩ := by
  have wellFormed : (Body.once (.float d)).WellFormed limits := places
  obtain ⟨built, parsed, same⟩ := Body.parse_written wellFormed nofun
  have written : (Body.once (.float d)).written = d.text :=
    (BodyPhrase.flushed (Body.phrase_fits wellFormed)).slice_eq
  have float : built = .once (.float d) := by
    cases built with
    | repeated r => cases same
    | once e =>
      cases e <;> cases same
      rfl
  rw [written, float] at parsed
  exact parsed

theorem Command.no_colon {text : String} {c : Command} (h : Command.parse text limits = .ok c)
    (plain : c.reason = none) : ':' ∉ text.toList := by
  intro colon
  obtain ⟨p, r, split, front⟩ := List.eq_append_cons_of_mem colon
  have whole : text = String.ofList p ++ ":" ++ String.ofList r :=
    String.toList_inj.mp (by simp [split])
  have parsed := Command.parse_colon limits (p := String.ofList p)
    (by rwa [String.toList_ofList]) (String.ofList r)
  rw [← whole, h] at parsed
  split at parsed
  · cases parsed
    cases plain
  · cases parsed

/-- The commands that are built are those that are well formed, up to the texts of their parts. -/
theorem Command.built_iff_wellFormed (limits : Limits) (c : Command) :
    (∃ text built, Command.parse text limits = .ok built ∧ built.withoutTexts = c.withoutTexts) ↔
      c.WellFormed limits ∧ c.Ordered := by
  constructor
  · intro h
    obtain ⟨text, built, parsed, same⟩ := h
    have wellFormed := Command.parse_wellFormed parsed
    have ordered := Command.parse_ordered parsed
    rw [← wellFormed_withoutTexts, same, wellFormed_withoutTexts] at wellFormed
    rw [← ordered_withoutTexts, same, ordered_withoutTexts] at ordered
    exact ⟨wellFormed, ordered⟩
  · intro h
    obtain ⟨wellFormed, ordered⟩ := h
    obtain ⟨body, reason, text⟩ := c
    obtain ⟨built, parsed, same⟩ := Body.parse_written wellFormed.body ordered
    cases reason with
    | none =>
      refine ⟨body.written, _, parsed, ?_⟩
      simp only [withoutTexts, same]
    | some r =>
      have colon : ':' ∉ body.written.toList := Command.no_colon parsed rfl
      have behind := Command.parse_colon limits colon r
      rw [parsed, wellFormed.reason r rfl, String.ofList_toList] at behind
      refine ⟨_, _, behind, ?_⟩
      simp only [withoutTexts, same]

end DiceNotation
