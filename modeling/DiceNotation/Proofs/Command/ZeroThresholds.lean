import DiceNotation.Proofs.Command.Writing

/-!
Thresholds of zero. A clause with such a threshold says nothing, and a term may be written without
it. But it is read before it is left out: it may have too many digits, and a double target of zero
still does not stand beside a target list.
-/
namespace DiceNotation

open Text Grammar

def Clause.isList : Clause → Bool
  | targetList _ => true
  | _ => false

def Clause.isZero : Clause → Bool
  | target n => n == 0
  | targetList _ => false
  | doubleTarget n => n == 0
  | failure n => n == 0

namespace Grammar

namespace ClausePhrase

def kind : ClausePhrase → ClauseKind
  | target _ _ => .target
  | targetList _ _ _ _ => .target
  | doubleTarget _ _ => .doubleTarget
  | failure _ _ => .failure

def isList : ClausePhrase → Bool
  | targetList _ _ _ _ => true
  | _ => false

def isZero : ClausePhrase → Bool
  | target _ number => numeralValue number.lexeme == 0
  | targetList _ _ _ _ => false
  | doubleTarget _ number => numeralValue number.lexeme == 0
  | failure _ number => numeralValue number.lexeme == 0

end ClausePhrase

def DicePhrase.withoutZeros (d : DicePhrase) : DicePhrase :=
  { d with clauses := d.clauses.filter (!·.isZero) }

/-- Nothing comes of the thresholds of zero: they are short enough to be read, and none is a double
target beside a list. Fudge dice have no use for clauses, so there a list does no harm. -/
structure DicePhrase.ZerosIdle (d : DicePhrase) : Prop where
  short : ∀ c ∈ d.clauses, c.isZero = true → ∀ digits ∈ c.numerals,
    digits.length ≤ maxNumeralDigits
  apart : ∀ word, d.head.sides = .number word → ∀ list ∈ d.clauses, list.isList = true →
    ∀ c ∈ d.clauses, c.isZero = true → c.kind ≠ .doubleTarget

end Grammar

variable {α β : Type}

theorem exists_readNumeral_iff {rule : NumeralRule} {digits : List Char} :
    (∃ n, readNumeral rule digits = .ok n) ↔ digits.length ≤ maxNumeralDigits := by
  simp [readNumeral_eq_ok_iff]

theorem exists_bind_pure_iff {x : Except BuildError α} {f : α → β} :
    (∃ b, (do return f (← x)) = Except.ok (ε := BuildError) b) ↔ ∃ a, x = .ok a := by
  cases x with
  | ok a => exact ⟨fun _ => ⟨a, rfl⟩, fun _ => ⟨f a, rfl⟩⟩
  | error e => exact ⟨nofun, nofun⟩

namespace Grammar.ClausePhrase

variable {p : ClausePhrase}

theorem build_like {c : Clause} (h : p.build = .ok c) :
    c.kind = p.kind ∧ c.isList = p.isList ∧ c.isZero = p.isZero := by
  cases p with
  | targetList key opening entries closing =>
    cases entries with
    | none => cases h
    | some entries =>
      obtain ⟨values, _, h⟩ := bind_eq_ok h
      cases h
      exact ⟨rfl, rfl, rfl⟩
  | _ =>
    obtain ⟨n, read, h⟩ := bind_eq_ok h
    cases h
    refine ⟨rfl, rfl, ?_⟩
    rw [Clause.isZero, isZero, ← (readNumeral_eq_ok_iff.mp read).2]

theorem exists_build_iff (zero : p.isZero = true) :
    (∃ c, p.build = .ok c) ↔ ∀ digits ∈ p.numerals, digits.length ≤ maxNumeralDigits := by
  cases p with
  | targetList key opening entries closing => cases zero
  | _ =>
    rw [numerals, List.forall_mem_singleton]
    exact exists_bind_pure_iff.trans exists_readNumeral_iff

end Grammar.ClausePhrase

theorem duplicateKind?_of_nodup {seen : List ClauseKind} {clauses : List Clause}
    (fresh : ∀ c ∈ clauses, c.kind ∉ seen) (distinct : (clauses.map Clause.kind).Nodup) :
    duplicateKind? seen clauses = none := by
  induction clauses generalizing seen with
  | nil => rfl
  | cons c clauses ih =>
    rw [List.forall_mem_cons] at fresh
    obtain ⟨new, distinct⟩ := List.nodup_cons.mp distinct
    rw [duplicateKind?, if_neg fresh.1]
    refine ih (fun d member => ?_) distinct
    rw [List.mem_cons, not_or]
    exact ⟨fun same => new (List.mem_map.mpr ⟨d, member, same⟩), fresh.2 d member⟩

def Clash (clauses : List Clause) : Prop :=
  (∃ list ∈ clauses, list.isList = true) ∧ ∃ c ∈ clauses, c.kind = .doubleTarget

theorem Scoring.ofClauses_eq_ok_iff {clauses : List Clause} {text : String} {s : Option Scoring}
    (distinct : (clauses.map Clause.kind).Nodup) :
    ofClauses clauses text = .ok s ↔
      ¬ Clash clauses ∧ (if clauses.foldl add .empty = .empty then none
        else some (clauses.foldl add .empty)) = s := by
  rw [ofClauses, duplicateKind?_of_nodup (fun _ _ => List.not_mem_nil) distinct]
  have clash : (clauses.any Clause.isList && clauses.any (·.kind = .doubleTarget)) = true ↔
      Clash clauses := by
    simp only [Bool.and_eq_true, List.any_eq_true, decide_eq_true_eq, Clash]
  change (if (clauses.any Clause.isList && clauses.any (·.kind = .doubleTarget)) = true
    then Except.error _ else .ok _) = _ ↔ _
  split
  · rename_i both
    constructor
    · intro h
      cases h
    · intro h
      exact absurd (clash.mp both) h.1
  · rename_i apart
    rw [Except.ok.injEq]
    exact (and_iff_right (mt clash.mpr apart)).symm

theorem Scoring.add_zero {c : Clause} (zero : c.isZero = true) (s : Scoring) : s.add c = s := by
  cases c with
  | targetList values => cases zero
  | _ => exact if_pos (beq_iff_eq.mp zero)

theorem Scoring.foldl_add_filter (clauses : List Clause) (s : Scoring) :
    (clauses.filter (!·.isZero)).foldl add s = clauses.foldl add s := by
  rw [List.foldl_filter]
  congr 1
  funext s c
  cases zero : c.isZero with
  | true => exact (add_zero zero s).symm
  | false => rfl

def ListsApart (clauses : List Clause) : Prop :=
  ∀ list ∈ clauses, list.isList = true → ∀ c ∈ clauses, c.isZero = true → c.kind ≠ .doubleTarget

/-- Lists have no threshold, so it is double targets of zero that clash no more. -/
theorem clash_filter_iff {clauses : List Clause} :
    Clash clauses ↔ Clash (clauses.filter (!·.isZero)) ∨ ¬ ListsApart clauses := by
  have stays {c : Clause} (list : c.isList = true) : c.isZero = false := by
    cases c with
    | targetList values => rfl
    | _ => cases list
  constructor
  · intro h
    obtain ⟨⟨list, member, listed⟩, c, present, double⟩ := h
    cases zero : c.isZero with
    | true => exact .inr fun apart => apart list member listed c present zero double
    | false =>
      refine .inl ⟨⟨list, List.mem_filter.mpr ⟨member, ?_⟩, listed⟩, c,
        List.mem_filter.mpr ⟨present, ?_⟩, double⟩
      · rw [stays listed, Bool.not_false]
      · rw [zero, Bool.not_false]
  · intro h
    rcases h with ⟨⟨list, member, listed⟩, c, present, double⟩ | beside
    · exact ⟨⟨list, List.mem_of_mem_filter member, listed⟩, c, List.mem_of_mem_filter present,
        double⟩
    · simp only [ListsApart, not_forall, ne_eq, not_not] at beside
      obtain ⟨list, member, listed, c, present, _, double⟩ := beside
      exact ⟨⟨list, member, listed⟩, c, present, double⟩

/-- Zero thresholds only matter to the scoring if a list stands beside one of them. -/
theorem Scoring.ofClauses_filter {clauses : List Clause} {text : String} {s : Option Scoring}
    (distinct : (clauses.map Clause.kind).Nodup) (short : String) :
    ofClauses clauses text = .ok s ↔
      ofClauses (clauses.filter (!·.isZero)) short = .ok s ∧ ListsApart clauses := by
  have fewer : ((clauses.filter (!·.isZero)).map Clause.kind).Nodup :=
    distinct.sublist (List.filter_sublist.map Clause.kind)
  rw [ofClauses_eq_ok_iff distinct, ofClauses_eq_ok_iff fewer, foldl_add_filter, clash_filter_iff]
  rw [not_or, not_not]
  exact and_right_comm

variable {limits : Limits}

theorem DiceTerm.assemble_filter {count : Nat} {sides : Option Nat} {modifiers : List Modifier}
    {clauses : List Clause} {text short : String} {t : DiceTerm}
    (distinct : (clauses.map Clause.kind).Nodup) :
    (assemble limits count sides modifiers clauses text).map withoutText = .ok t ↔
      (assemble limits count sides modifiers (clauses.filter (!·.isZero)) short).map withoutText =
          .ok t ∧ (sides.isSome = true → ListsApart clauses) := by
  unfold assemble
  split
  · exact ⟨nofun, nofun⟩
  · cases sides with
    | none => exact (and_iff_left nofun).symm
    | some sides =>
      dsimp only
      split
      · exact ⟨nofun, nofun⟩
      · split
        · exact ⟨nofun, nofun⟩
        · have scored (text : String) {clauses : List Clause} :
              ((Scoring.ofClauses clauses text).map fun s =>
                DiceTerm.mk count (some (sides : Int)) modifiers s text).map withoutText = .ok t ↔
              ∃ s, Scoring.ofClauses clauses text = .ok s ∧
                DiceTerm.mk count (some (sides : Int)) modifiers s "" = t := by
            cases Scoring.ofClauses clauses text with
            | ok s => simp [Except.map, withoutText]
            | error e => simp [Except.map]
          simp only [scored, Scoring.ofClauses_filter distinct short]
          simp only [Option.isSome_some, forall_const]
          tauto

namespace Grammar.DicePhrase

variable {d : DicePhrase}

theorem build_eq_ok_iff {t : DiceTerm} :
    (d.build limits).map DiceTerm.withoutText = .ok t ↔
      ∃ modifiers clauses count sides, d.head.options.mapM OptionPhrase.build = .ok modifiers ∧
        d.clauses.mapM ClausePhrase.build = .ok clauses ∧ readCount d.head.count = .ok count ∧
        readSides d.head.sides = .ok sides ∧
        (DiceTerm.assemble limits count sides modifiers clauses (slice d.spell)).map
          DiceTerm.withoutText = .ok t := by
  constructor
  · intro h
    obtain ⟨built, h, same⟩ := map_eq_ok h
    obtain ⟨modifiers, options, h⟩ := bind_eq_ok h
    obtain ⟨clauses, scored, h⟩ := bind_eq_ok h
    obtain ⟨count, counted, h⟩ := bind_eq_ok h
    obtain ⟨sides, sided, h⟩ := bind_eq_ok h
    refine ⟨modifiers, clauses, count, sides, options, scored, counted, sided, ?_⟩
    rw [h, ← same]
    rfl
  · rintro ⟨modifiers, clauses, count, sides, options, scored, counted, sided, h⟩
    rw [build, options, scored, counted, sided]
    exact h

theorem isSome_readSides {p : SidesPhrase} {sides : Option Nat} (h : readSides p = .ok sides) :
    sides.isSome = true ↔ ∃ word, p = .number word := by
  cases p with
  | number word =>
    obtain ⟨n, _, rfl⟩ := map_eq_ok h
    exact ⟨fun _ => ⟨word, rfl⟩, fun _ => rfl⟩
  | fudge word =>
    cases h
    exact ⟨nofun, nofun⟩

theorem apart_iff {clauses : List Clause}
    (scored : d.clauses.mapM ClausePhrase.build = .ok clauses) :
    ListsApart clauses ↔ ∀ list ∈ d.clauses, list.isList = true →
      ∀ p ∈ d.clauses, p.isZero = true → p.kind ≠ .doubleTarget := by
  have back := mem_of_mapM scored
  have forth := exists_of_mapM scored
  constructor
  · intro h q listed list p member zero
    obtain ⟨list', memList, builtList⟩ := forth q listed
    obtain ⟨c, mem, built⟩ := forth p member
    obtain ⟨kind, _, isZero⟩ := ClausePhrase.build_like built
    rw [← (ClausePhrase.build_like builtList).2.1] at list
    rw [← isZero] at zero
    rw [← kind]
    exact h list' memList list c mem zero
  · intro h list' memList list c mem zero
    obtain ⟨q, listed, builtList⟩ := back list' memList
    obtain ⟨p, member, built⟩ := back c mem
    obtain ⟨kind, _, isZero⟩ := ClausePhrase.build_like built
    rw [(ClausePhrase.build_like builtList).2.1] at list
    rw [isZero] at zero
    rw [kind]
    exact h q listed list p member zero

theorem mapM_withoutZeros {clauses : List Clause}
    (scored : d.clauses.mapM ClausePhrase.build = .ok clauses) :
    d.withoutZeros.clauses.mapM ClausePhrase.build = .ok (clauses.filter (!·.isZero)) := by
  rw [mapM_eq_ok_iff] at scored ⊢
  refine List.rel_filter ?_ scored
  intro p c built
  dsimp only
  rw [(ClausePhrase.build_like built).2.2]

theorem map_kind {words : List ClausePhrase} {clauses : List Clause}
    (scored : words.mapM ClausePhrase.build = .ok clauses) :
    clauses.map Clause.kind = words.map ClausePhrase.kind := by
  rw [mapM_eq_ok_iff] at scored
  induction scored with
  | nil => rfl
  | cons built _ ih => rw [List.map_cons, List.map_cons, ih, (ClausePhrase.build_like built).1]

/-- A term is built without its thresholds of zero as it is with them, if these are idle. -/
theorem build_withoutZeros (distinct : (d.clauses.map ClausePhrase.kind).Nodup) {t : DiceTerm} :
    (d.build limits).map DiceTerm.withoutText = .ok t ↔
      (d.withoutZeros.build limits).map DiceTerm.withoutText = .ok t ∧ d.ZerosIdle := by
  rw [build_eq_ok_iff, build_eq_ok_iff]
  constructor
  · rintro ⟨modifiers, clauses, count, sides, options, scored, counted, sided, h⟩
    rw [← map_kind scored] at distinct
    obtain ⟨fewer, apart⟩ := (DiceTerm.assemble_filter distinct).mp h
    refine ⟨⟨modifiers, _, count, sides, options, mapM_withoutZeros scored, counted, sided, fewer⟩,
      ?_, ?_⟩
    · intro p member zero
      obtain ⟨c, _, built⟩ := exists_of_mapM scored p member
      exact (ClausePhrase.exists_build_iff zero).mp ⟨c, built⟩
    · intro word numbered
      exact (apart_iff scored).mp (apart ((isSome_readSides sided).mpr ⟨word, numbered⟩))
  · rintro ⟨⟨modifiers, fewer, count, sides, options, rest, counted, sided, h⟩, short, apart⟩
    have each : ∀ p ∈ d.clauses, ∃ c, p.build = .ok c := by
      intro p member
      cases zero : p.isZero with
      | true => exact (ClausePhrase.exists_build_iff zero).mpr (short p member zero)
      | false =>
        have stays : p ∈ d.withoutZeros.clauses :=
          List.mem_filter.mpr ⟨member, by rw [zero, Bool.not_false]⟩
        obtain ⟨c, _, built⟩ := exists_of_mapM rest p stays
        exact ⟨c, built⟩
    obtain ⟨clauses, scored⟩ := exists_mapM_eq_ok each
    obtain rfl : clauses.filter (!·.isZero) = fewer :=
      Except.ok.inj ((mapM_withoutZeros scored).symm.trans rest)
    rw [← map_kind scored] at distinct
    refine ⟨modifiers, clauses, count, sides, options, scored, counted, sided, ?_⟩
    refine (DiceTerm.assemble_filter distinct).mpr ⟨h, fun present => ?_⟩
    obtain ⟨word, numbered⟩ := (isSome_readSides sided).mp present
    exact (apart_iff scored).mpr (apart word numbered)

theorem withoutZeros_shaped {d : DicePhrase} (h : d.Shaped) : d.withoutZeros.Shaped :=
  ⟨h.1, (List.length_filter_le _ _).trans h.2⟩

theorem withoutZeros_fits {d : DicePhrase} (h : d.tree.Fits) : d.withoutZeros.tree.Fits := by
  rw [tree, fits_node, fitRow_append, fitRow_scoringTrees] at h ⊢
  exact ⟨h.1, fun c member => h.2 c (List.mem_of_mem_filter member)⟩

theorem read_withoutZeros {s : List Char} {d : DicePhrase}
    (h : read s = .ok ⟨.expr (.dice d), none⟩) {blanks : List Char}
    (blank : ∀ x ∈ blanks, isBlank x = true) :
    read (d.withoutZeros.spell ++ blanks) = .ok ⟨.expr (.dice d.withoutZeros), none⟩ := by
  obtain ⟨shaped, _, _, fits, _, _⟩ := parses_of_read h
  have fitsDice : d.tree.Fits := by
    rw [CommandPhrase.tree, fits_node] at fits
    exact ExprPhrase.fits_dice.mp (fits_node.mp (fits _ List.mem_cons_self))
  have thinned : (BodyPhrase.expr (.dice d.withoutZeros)).tree.Fits :=
    fits_node.mpr (ExprPhrase.fits_dice.mpr (withoutZeros_fits fitsDice))
  have again := read_spelled (c := ⟨.expr (.dice d.withoutZeros), none⟩)
    (withoutZeros_shaped shaped) (fits_node.mpr (List.forall_mem_singleton.mpr thinned)) rfl blanks
    blank
  rwa [CommandPhrase.spell, spellOption, Option.elim_none, List.append_nil] at again

end Grammar.DicePhrase

theorem Command.parse_dice {text : String} {d : DicePhrase}
    (h : read text.toList = .ok ⟨.expr (.dice d), none⟩) :
    (parse text limits).map withoutTexts =
      ((d.build limits).map DiceTerm.withoutText).map fun t => ⟨.once (.dice t), none, ""⟩ := by
  rw [parse, h]
  simp only [CommandPhrase.build, BodyPhrase.build, ExprPhrase.build]
  cases d.build limits with
  | ok t => rfl
  | error e => rfl

/-- Without its clauses that have a threshold of zero, the text of a term whose clauses are of
different kinds makes the same command as before, and before it made one only if these clauses were
short and no list stood beside a double target of zero. -/
theorem Command.zero_thresholds_idle {text : String} {d : DicePhrase} {blanks : List Char}
    (reading : read text.toList = .ok ⟨.expr (.dice d), none⟩)
    (distinct : (d.clauses.map ClausePhrase.kind).Nodup)
    (blank : ∀ x ∈ blanks, isBlank x = true) (limits : Limits) :
    let thinned := String.ofList (d.withoutZeros.spell ++ blanks)
    read thinned.toList = .ok ⟨.expr (.dice d.withoutZeros), none⟩ ∧
      ∀ c, (parse text limits).map withoutTexts = .ok c ↔
        (parse thinned limits).map withoutTexts = .ok c ∧ d.ZerosIdle := by
  intro thinned
  have again : read thinned.toList = .ok ⟨.expr (.dice d.withoutZeros), none⟩ := by
    rw [String.toList_ofList]
    exact DicePhrase.read_withoutZeros reading blank
  refine ⟨again, fun c => ?_⟩
  rw [parse_dice reading, parse_dice again]
  constructor
  · intro h
    obtain ⟨t, built, rfl⟩ := map_eq_ok h
    obtain ⟨rest, idle⟩ := (DicePhrase.build_withoutZeros distinct).mp built
    rw [rest]
    exact ⟨rfl, idle⟩
  · rintro ⟨h, idle⟩
    obtain ⟨t, built, rfl⟩ := map_eq_ok h
    rw [(DicePhrase.build_withoutZeros distinct).mpr ⟨built, idle⟩]
    rfl

/-- Two zeros make a threshold of zero. -/
theorem zero_target_idle :
    ∃ d, read "2d6 t00 f2 ".toList = .ok ⟨.expr (.dice d), none⟩ ∧
      (d.clauses.map ClausePhrase.kind).Nodup ∧ d.ZerosIdle ∧
      String.ofList (d.withoutZeros.spell ++ [' ']) = "2d6 f2 " ∧
      (Command.parse "2d6 t00 f2 " {}).map Command.withoutTexts = .ok ⟨.once (.dice
        ⟨2, some 6, [], some ⟨none, none, none, some 2⟩, ""⟩), none, ""⟩ := by
  obtain ⟨d, phrase⟩ : ∃ d : DicePhrase, d = ⟨⟨some ⟨[], ['2']⟩, ⟨[], ['d']⟩, .number ⟨[], ['6']⟩,
    []⟩, [.target ⟨[' '], ['t']⟩ ⟨[], ['0', '0']⟩, .failure ⟨[' '], ['f']⟩ ⟨[], ['2']⟩]⟩ := ⟨_, rfl⟩
  have reading : read "2d6 t00 f2 ".toList = .ok ⟨.expr (.dice d), none⟩ := by
    rw [phrase]
    cbv
  have distinct : (d.clauses.map ClausePhrase.kind).Nodup := by
    rw [phrase]
    decide
  have idle : d.ZerosIdle := by
    rw [phrase]
    exact ⟨by decide, fun word _ => by decide⟩
  have thinned : String.ofList (d.withoutZeros.spell ++ [' ']) = "2d6 f2 " := by
    rw [phrase]
    decide
  have blank : ∀ x ∈ [' '], isBlank x = true := List.forall_mem_singleton.mpr rfl
  obtain ⟨_, same⟩ := Command.zero_thresholds_idle reading distinct blank {}
  rw [thinned] at same
  exact ⟨d, reading, distinct, idle, thinned, (same _).mpr ⟨by cbv, idle⟩⟩

theorem zero_double_target_refused :
    ¬ ∀ (text : String) (d : DicePhrase) (limits : Limits),
      read text.toList = .ok ⟨.expr (.dice d), none⟩ → (d.clauses.map ClausePhrase.kind).Nodup →
        ∀ c, (Command.parse text limits).map Command.withoutTexts = .ok c ↔
          (Command.parse (String.ofList d.withoutZeros.spell) limits).map Command.withoutTexts =
            .ok c := by
  intro same
  let d : DicePhrase := ⟨⟨some ⟨[], ['1']⟩, ⟨[], ['d']⟩, .number ⟨[], ['6']⟩, []⟩,
    [.targetList ⟨[], ['t']⟩ ⟨[], ['[']⟩ (some (⟨[], ['1']⟩, [])) ⟨[], [']']⟩,
      .doubleTarget ⟨[], ['t', 't']⟩ ⟨[], ['0']⟩]⟩
  have reading : read "1d6t[1]tt0".toList = .ok ⟨.expr (.dice d), none⟩ := by cbv
  have thinned : String.ofList d.withoutZeros.spell = "1d6t[1]" := by decide
  have refused : Command.parse "1d6t[1]tt0" {} =
      .error (.fault (.listWithDoubleTarget "1d6t[1]tt0")) := by cbv
  have built : Command.parse "1d6t[1]" {} = .ok ⟨.once (.dice
      ⟨1, some 6, [], some ⟨none, some [1], none, none⟩, "1d6t[1]"⟩), none, "1d6t[1]"⟩ := by cbv
  have both := (same _ d {} reading (by decide) _).mpr (by rw [thinned, built]; rfl)
  rw [refused] at both
  cases both

end DiceNotation
