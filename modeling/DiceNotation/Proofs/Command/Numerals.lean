import DiceNotation.Proofs.Command.WellFormed
import DiceNotation.Proofs.Grammar.Spelled

/-!
A numeral of a command is a run of digits of its text, and one that is too long to be read is the
only reason, beside an unreadable text and a fault, for which no command is built.
-/
namespace DiceNotation

namespace Grammar

variable {text : List Char}

def Token.StandsIn (text : List Char) (t : Token) : Prop := t.Fits ∧ t.word.lexeme <:+: text

def RunOf (text run : List Char) : Prop := run <:+: text ∧ Digits run

theorem forall_mem_tokensOf {P : Token → Prop} {trees : List Tree} :
    (∀ t ∈ tokensOf trees, P t) ↔ ∀ tree ∈ trees, ∀ t ∈ tree.tokens, P t := by
  induction trees with
  | nil => simp
  | cons tree trees ih => rw [tokensOf_cons, List.forall_mem_append, ih, List.forall_mem_cons]

theorem Parses.standsIn {tree : Tree} {blanks : List Char} (h : Parses text tree blanks) :
    ∀ t ∈ tree.tokens, t.StandsIn text := by
  intro t member
  refine ⟨h.fits t member, ?_⟩
  obtain ⟨before, behind, split⟩ := List.append_of_mem member
  rw [h.spelled, split, spellTokens_append, spellTokens_cons, Word.spell]
  exact ⟨spellTokens before ++ t.word.gap, spellTokens behind ++ blanks, by simp⟩

theorem Token.StandsIn.run {w : Word} (h : Token.StandsIn text ⟨.number, w⟩) :
    RunOf text w.lexeme :=
  ⟨h.2, h.1.2⟩

theorem Token.StandsIn.magnitude {w : Word} (h : Token.StandsIn text ⟨.integer, w⟩) :
    RunOf text (withoutSign w.lexeme) := by
  refine ⟨List.IsInfix.trans ?_ h.2, withoutSign_of_signed h.1.2 Digits.unsigned⟩
  generalize w.lexeme = s
  fun_cases withoutSign s
  case case3 minus plus => exact List.infix_rfl
  all_goals exact (List.suffix_cons _ _).isInfix

theorem OptionPhrase.numerals_run {o : OptionPhrase} (h : ∀ t ∈ o.tree.tokens, t.StandsIn text) :
    ∀ run ∈ o.numerals, RunOf text run := by
  obtain ⟨kind, key, number⟩ := o
  cases number with
  | none => simp [numerals]
  | some w =>
    refine List.forall_mem_singleton.mpr (Token.StandsIn.run (h _ ?_))
    simp [tree, optionalToken]

theorem ClausePhrase.numerals_run {c : ClausePhrase} (h : ∀ t ∈ c.tree.tokens, t.StandsIn text) :
    ∀ run ∈ c.numerals, RunOf text run := by
  cases c with
  | targetList key opening entries closing =>
    cases entries with
    | none => simp [numerals]
    | some entries =>
      obtain ⟨first, others⟩ := entries
      intro run member
      obtain ⟨w, entry, rfl⟩ := List.mem_map.mp member
      simp only [tree, tokens_node, tokensOf_cons, tokensOf_append, List.forall_mem_append,
        List.cons_append, forall_mem_tokensOf] at h
      exact Token.StandsIn.run (h.1.2.1.2.1 _ (leaf_mem_entryTrees entry) _ (by simp))
  | _ =>
    refine List.forall_mem_singleton.mpr (Token.StandsIn.run (h _ ?_))
    simp [tree]

theorem DicePhrase.numerals_run {d : DicePhrase} (h : ∀ t ∈ d.tree.tokens, t.StandsIn text) :
    ∀ run ∈ d.numerals, RunOf text run := by
  obtain ⟨⟨count, marker, sides, options⟩, clauses⟩ := d
  simp only [tree, DiceHead.trees, tokens_node, tokensOf_append, tokensOf_cons,
    tokensOf_scoringTrees, List.forall_mem_append, forall_mem_tokensOf, List.forall_mem_map] at h
  obtain ⟨⟨counted, marked, sided, modified⟩, scored⟩ := h
  simp only [numerals, List.forall_mem_append, List.forall_mem_flatMap]
  refine ⟨⟨⟨fun o member => ?_, fun c member => ?_⟩, ?_⟩, ?_⟩
  · exact OptionPhrase.numerals_run (modified o member)
  · exact ClausePhrase.numerals_run (scored c member)
  · cases count with
    | none => simp
    | some w =>
      have stands : Token.StandsIn text ⟨.count, w⟩ := by simpa [maybeLeaf] using counted
      exact List.forall_mem_singleton.mpr ⟨stands.2, stands.1.2.1⟩
  · cases sides with
    | fudge w => simp [SidesPhrase.numerals]
    | number w =>
      refine List.forall_mem_singleton.mpr (Token.StandsIn.run (sided _ ?_))
      simp [SidesPhrase.tree]

theorem ExprPhrase.numerals_run {e : ExprPhrase}
    (h : ∀ t ∈ tokensOf e.trees, t.StandsIn text) : ∀ run ∈ e.numerals, RunOf text run := by
  induction e with
  | dice term => exact DicePhrase.numerals_run (by simpa [trees] using h)
  | float word => simp [numerals]
  | integer word =>
    refine List.forall_mem_singleton.mpr (Token.StandsIn.magnitude (h _ ?_))
    simp [trees]
  | group opening inner closing ih =>
    simp only [trees, tokensOf_cons, tokens_node, List.forall_mem_append] at h
    exact ih h.1.2.1
  | binary left operator right ih ihRight =>
    simp only [trees, tokensOf_append, tokensOf_cons, List.forall_mem_append] at h
    exact List.forall_mem_append.mpr ⟨ih h.1, ihRight h.2.2⟩

theorem BodyPhrase.numerals_run {b : BodyPhrase} (h : ∀ t ∈ b.tree.tokens, t.StandsIn text) :
    ∀ run ∈ b.numerals, RunOf text run := by
  cases b with
  | expr phrase =>
    refine ExprPhrase.numerals_run ?_
    simpa [tree, ExprPhrase.tree] using h
  | repeated phrase =>
    have times : Token.StandsIn text ⟨.number, phrase.times⟩ :=
      h _ (by simp [tree, RepeatPhrase.tree])
    simp only [tree, RepeatPhrase.tree, ExprPhrase.tree, tokens_node, tokensOf_cons,
      List.cons_append, tokensOf_append, List.forall_mem_append] at h
    exact List.forall_mem_append.mpr
      ⟨ExprPhrase.numerals_run h.2.1, List.forall_mem_singleton.mpr times.run⟩

end Grammar

open Grammar

theorem Grammar.CommandPhrase.build_fails {text : List Char} {c : CommandPhrase}
    (runs : ∀ run ∈ c.body.numerals, RunOf text run) (limits : Limits) :
    Fails (fun e => (∃ f, e = .fault f) ∨ ∃ rule run, e = .longNumeral rule run.length ∧
      maxNumeralDigits < run.length ∧ RunOf text run) (c.build limits) := by
  refine Fails.command (fun f => .inl ⟨f, rfl⟩) fun rule run member => ?_
  unfold readNumeral
  split
  · exact Fails.error (.inr ⟨rule, run, rfl, ‹_›, runs run member⟩)
  · exact Fails.ok _

theorem Command.parse_long_run {run : List Char} (digits : Digits run)
    (long : maxNumeralDigits < run.length) (limits : Limits) :
    parse (String.ofList run) limits = .error (.longNumeral .integer run.length) := by
  have word : Word.Fits ⟨[], run⟩ .integer := ⟨by simp, .inl digits⟩
  have fits : (CommandPhrase.tree ⟨.expr (.integer ⟨[], run⟩), none⟩).Fits := by
    rw [CommandPhrase.tree, fits_node]
    simp [BodyPhrase.tree, ExprPhrase.tree, ExprPhrase.trees, maybeLeaf, word]
  have reading :=
    read_spelled (c := ⟨.expr (.integer ⟨[], run⟩), none⟩) trivial fits rfl [] (by simp)
  have spelled : (CommandPhrase.mk (.expr (.integer ⟨[], run⟩)) none).spell ++ [] = run := by
    simp [CommandPhrase.spell, BodyPhrase.spell, ExprPhrase.spell, Word.spell, spellOption]
  have refused : readInteger run = .error (.longNumeral .integer run.length) := by
    rw [readInteger_of_digits digits, readNumeral, if_pos long]
    rfl
  rw [spelled] at reading
  rw [parse, String.toList_ofList, reading]
  simp only [CommandPhrase.build, BodyPhrase.build, ExprPhrase.build, refused]
  rfl

end DiceNotation
