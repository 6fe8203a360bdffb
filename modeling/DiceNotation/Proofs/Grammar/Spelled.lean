import DiceNotation.Proofs.Grammar.Acceptance

/-!
The words of a phrase spell it out, and what a phrase spells is read as that phrase again.
-/
namespace DiceNotation.Grammar

open DiceNotation.Text

@[simp] theorem spellTokens_nil : spellTokens [] = [] := rfl

@[simp] theorem spellTokens_cons (t : Token) (tokens : List Token) :
    spellTokens (t :: tokens) = t.word.spell ++ spellTokens tokens := rfl

@[simp] theorem spellTokens_append (first second : List Token) :
    spellTokens (first ++ second) = spellTokens first ++ spellTokens second :=
  List.flatMap_append

@[simp] theorem spell_optionalToken (t : Terminal) (w : Option Word) :
    spellTokens (optionalToken t w) = spellOption w := by
  cases w <;> simp [optionalToken, spellOption]

theorem spell_entryTrees (entries : Option (Word × List (Word × Word))) :
    spellTokens (tokensOf (entryTrees entries)) = spellEntries entries := by
  cases entries with
  | none => rfl
  | some entries =>
    obtain ⟨first, others⟩ := entries
    simp only [entryTrees, spellEntries, tokensOf_cons, tokens_leaf, List.singleton_append,
      spellTokens_cons, List.append_cancel_left_eq]
    induction others with
    | nil => rfl
    | cons entry others ih => simp [ih]

theorem OptionPhrase.spell_tree (o : OptionPhrase) : spellTokens o.tree.tokens = o.spell := by
  simp [tree, spell]

theorem ClausePhrase.spell_tree (c : ClausePhrase) : spellTokens c.tree.tokens = c.spell := by
  cases c <;> simp [tree, spell, spell_entryTrees]

theorem DicePhrase.spell_tree (d : DicePhrase) : spellTokens d.tree.tokens = d.spell := by
  obtain ⟨⟨count, marker, sides, options⟩, clauses⟩ := d
  have sided : spellTokens sides.tree.tokens = sides.spell := by
    cases sides <;> simp [SidesPhrase.tree, SidesPhrase.spell]
  have modified : spellTokens (tokensOf (options.map OptionPhrase.tree)) =
      options.flatMap OptionPhrase.spell := by
    induction options with
    | nil => rfl
    | cons o options ih => simp [ih, OptionPhrase.spell_tree]
  have scored : spellTokens (tokensOf (clauses.map ClausePhrase.tree)) =
      clauses.flatMap ClausePhrase.spell := by
    induction clauses with
    | nil => rfl
    | cons c clauses ih => simp [ih, ClausePhrase.spell_tree]
  simp [tree, DiceHead.trees, spell, DiceHead.spell, tokensOf_scoringTrees, sided, modified, scored]

theorem ExprPhrase.spell_trees (e : ExprPhrase) : spellTokens (tokensOf e.trees) = e.spell := by
  induction e with
  | dice term => simp [trees, spell, DicePhrase.spell_tree]
  | float word => simp [trees, spell]
  | integer word => simp [trees, spell]
  | group opening inner closing ih => simp [trees, spell, ih]
  | binary left operator right ih ihRight => simp [trees, spell, ih, ihRight]

theorem CommandPhrase.spell_tree (c : CommandPhrase) : spellTokens c.tree.tokens = c.spell := by
  obtain ⟨body, reason⟩ := c
  cases body with
  | expr e => simp [tree, spell, BodyPhrase.tree, BodyPhrase.spell, ExprPhrase.tree,
      ExprPhrase.spell_trees]
  | repeated r => simp [tree, spell, BodyPhrase.tree, BodyPhrase.spell, RepeatPhrase.tree,
      RepeatPhrase.spell, ExprPhrase.tree, ExprPhrase.spell_trees]

theorem CommandPhrase.eq_of_tree {c d : CommandPhrase} (shapedC : c.Shaped) (shapedD : d.Shaped)
    (same : c.tree = d.tree) : c = d := by
  have read := Cursor.accepts_tree shapedC
  rw [same, Cursor.accepts_tree shapedD] at read
  exact (Option.some.inj read).symm

theorem read_spelled {c : CommandPhrase} (shaped : c.Shaped) (fits : c.tree.Fits)
    (plain : c.reason = none) (blanks : List Char) (blank : ∀ x ∈ blanks, isBlank x = true) :
    read (c.spell ++ blanks) = .ok c := by
  have parses : Parses (c.spell ++ blanks) c.tree blanks :=
    ⟨CommandPhrase.derives shaped, fits, by rw [CommandPhrase.spell_tree], blank⟩
  obtain ⟨command, found, behind, shapedCommand, tree, read, _, same⟩ := parses.read
  obtain rfl := CommandPhrase.eq_of_tree shapedCommand shaped tree
  obtain ⟨body, reason⟩ := command
  obtain ⟨body', reason'⟩ := found
  obtain rfl : reason = none := plain
  simp only [CommandPhrase.absorb, Option.map_none, CommandPhrase.mk.injEq,
    Option.map_eq_none_iff] at same
  obtain ⟨rfl, rfl⟩ := same
  exact read

def letters : List Char :=
  Terminal.digitChars ++ "+-*/.#()[],^!eirtfFdDkK".toList

theorem mem_letters_of_all {l : List Char} (h : l.all (letters.contains ·) = true) :
    ∀ x ∈ l, x ∈ letters := by
  intro x member
  simpa using List.all_eq_true.mp h x member

theorem Terminal.mem_letters {t : Terminal} (h : t ≠ .reason) {l : List Char} (fits : t.Matches l) :
    ∀ x ∈ l, x ∈ letters := by
  have digit {x : Char} (h : x.isDigit = true) : x ∈ letters :=
    List.mem_append_left _ (mem_digitChars h)
  have signed {P : List Char → Prop} {l : List Char} (fits : Signed P l)
      (inner : ∀ {l}, P l → ∀ x ∈ l, x ∈ letters) : ∀ x ∈ l, x ∈ letters := by
    rcases fits with plain | ⟨sign, rest, rfl, isSign, plain⟩
    · exact inner plain
    · refine List.forall_mem_cons.mpr ⟨?_, inner plain⟩
      simp only [Grammar.isSign, Bool.or_eq_true, beq_iff_eq] at isSign
      rcases isSign with rfl | rfl <;> decide
  cases t <;> simp only [Matches, literal?] at fits
  case count => exact fun x member => digit (fits.1.2 x member)
  case number => exact fun x member => digit (fits.2 x member)
  case integer => exact signed fits fun plain x member => digit (plain.2 x member)
  case float =>
    refine signed fits ?_
    rintro _ ⟨whole, places, rfl, digits, digitPlaces, _⟩ x member
    rcases List.mem_append.mp member with front | point
    · exact digit (digits.2 x front)
    · rcases List.mem_cons.mp point with rfl | behind
      · decide
      · exact digit (digitPlaces.2 x behind)
  case reason => exact absurd rfl h
  case marker | fudge | operator | repeatMode =>
    obtain ⟨c, rfl, class_⟩ := fits
    simp only [isOperator, Bool.or_eq_true, beq_iff_eq, or_assoc] at class_
    intro x member
    obtain rfl := List.mem_singleton.mp member
    rcases class_ with rfl | rfl | rfl | rfl <;> decide
  all_goals
    subst fits
    exact mem_letters_of_all (by decide)

theorem letters_plain : letters.all (fun x => !isSpace x && x != ':') = true := by decide

theorem no_space_in_letters {x : Char} (h : x ∈ letters) : isSpace x = false := by
  have plain := List.all_eq_true.mp letters_plain x h
  simp only [Bool.and_eq_true, Bool.not_eq_true'] at plain
  exact plain.1

theorem colon_not_mem_letters : ':' ∉ letters := by
  intro h
  have plain := List.all_eq_true.mp letters_plain ':' h
  simp at plain

theorem spellTokens_end {tokens : List Token} (fits : ∀ t ∈ tokens, t.Fits)
    (plain : ∀ t ∈ tokens, t.terminal ≠ .reason) (nonempty : tokens ≠ []) :
    ∃ front x, spellTokens tokens = front ++ [x] ∧ isSpace x = false := by
  obtain ⟨before, t, rfl⟩ := List.eq_nil_or_concat tokens |>.resolve_left nonempty
  have last : t ∈ before.concat t := by simp
  have lexeme : t.word.lexeme ≠ [] := by
    obtain ⟨x, more, eq, _⟩ := (fits t last).2.head
    simp [eq]
  obtain ⟨front, x, eq⟩ := List.eq_nil_or_concat t.word.lexeme |>.resolve_left lexeme
  refine ⟨spellTokens before ++ t.word.gap ++ front, x, by simp [Word.spell, eq], ?_⟩
  refine no_space_in_letters (Terminal.mem_letters (plain t last) (fits t last).2 x ?_)
  simp [eq]

theorem dropEndWhile_concat {p : Char → Bool} {x : Char} (h : p x = false) (s : List Char) :
    dropEndWhile p (s ++ [x]) = s ++ [x] := by
  simp [dropEndWhile, h]

/-- A text without a colon that is read ends in blanks at most, and is read without them. -/
theorem read_trimEnd {s : List Char} {c : CommandPhrase} (h : read s = .ok c) (colon : ':' ∉ s) :
    c.reason = none ∧ read (trimEnd s) = .ok c ∧
      ∃ blanks : List Char, (∀ x ∈ blanks, isBlank x = true) ∧ s = trimEnd s ++ blanks := by
  obtain ⟨shaped, blanks, parses⟩ := parses_of_read h
  obtain ⟨_, fits, spelled, blank⟩ := parses
  have plain : ∀ t ∈ c.tree.tokens, t.terminal ≠ .reason := by
    intro t member reason
    have lexeme : t.terminal.Matches t.word.lexeme := (fits t member).2
    rw [reason] at lexeme
    obtain ⟨letters, eq⟩ := lexeme
    apply colon
    rw [spelled]
    refine List.mem_append_left _ (List.mem_flatMap.mpr ⟨t, member, ?_⟩)
    simp [Token.spell, Word.spell, eq]
  have absent : c.reason = none := by
    cases reason : c.reason with
    | none => rfl
    | some w =>
      have token : ⟨.reason, w⟩ ∈ c.tree.tokens := by
        simp [CommandPhrase.tree, reason, optionalToken]
      exact absurd rfl (plain _ token)
  have nonempty : c.tree.tokens ≠ [] := by
    intro empty
    have read := Cursor.accepts_tree shaped
    rw [empty] at read
    cases read
  obtain ⟨front, x, ending, dark⟩ := spellTokens_end fits plain nonempty
  rw [CommandPhrase.spell_tree] at spelled ending
  have trimmed : trimEnd s = c.spell := by
    have space : ∀ x ∈ blanks, isSpace x = true :=
      fun x member => isSpace_of_isBlank (blank x member)
    rw [trimEnd, spelled, dropEndWhile_append space, ending, dropEndWhile_concat dark]
  refine ⟨absent, ?_, blanks, blank, by rw [trimmed]; exact spelled⟩
  have again := read_spelled shaped fits absent [] (by simp)
  rwa [List.append_nil, ← trimmed] at again

end DiceNotation.Grammar
