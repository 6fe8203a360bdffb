import DiceNotation.Proofs.Command.Build
import DiceNotation.Proofs.Grammar.Split

/-!
Which texts are read as commands: those that can be split into the words of a derivation. There is
one derivation for each of them, and the command is built from its phrase.
-/
namespace DiceNotation.Grammar

open DiceNotation.Text

theorem foldl_furthest_ok {readings : List (Except Stuck CommandPhrase)}
    {best : Except Stuck CommandPhrase}
    (h : (∃ c, best = .ok c) ∨ ∃ c, .ok c ∈ readings) :
    ∃ c, readings.foldl furthest best = .ok c := by
  induction readings generalizing best with
  | nil => simpa using h
  | cons r readings ih =>
    refine ih ?_
    rcases h with ⟨c, rfl⟩ | ⟨c, member⟩
    · exact .inl ⟨c, rfl⟩
    · rcases List.mem_cons.mp member with rfl | later
      · cases best <;> exact .inl ⟨_, rfl⟩
      · exact .inr ⟨c, later⟩

theorem mem_ways {c next : Cursor} {t : Terminal} {gap rest lexeme left : List Char}
    (took : t.take? rest = some (lexeme, left)) (stepped : c.step t ⟨gap, lexeme⟩ = some next) :
    ⟨next, lexeme, left⟩ ∈ ways c gap rest :=
  List.mem_filterMap.mpr ⟨t, t.mem_all, by simp [wayOf?, took, stepped]⟩

theorem readFrom_of_way {c next : Cursor} {t : Terminal} {s gap rest lexeme left : List Char}
    (gap_eq : s.takeWhile isBlank = gap) (rest_eq : s.dropWhile isBlank = rest)
    (took : t.take? rest = some (lexeme, left)) (stepped : c.step t ⟨gap, lexeme⟩ = some next)
    (reads : ∀ position, ∃ command, readFrom next position left = .ok command) (position : Nat) :
    ∃ command, readFrom c position s = .ok command := by
  rw [readFrom_eq]
  split
  · exact ⟨_, rfl⟩
  · obtain ⟨command, read⟩ := reads (position + gap.length + lexeme.length)
    refine foldl_furthest_ok (.inr ⟨command, List.mem_map.mpr ⟨⟨next, lexeme, left⟩, ?_, ?_⟩⟩)
    · rw [gap_eq, rest_eq]
      exact mem_ways took stepped
    · rw [gap_eq]
      exact read

theorem readFrom_of_blank {c : Cursor} {s : List Char} {command : CommandPhrase}
    (blank : ∀ x ∈ s, isBlank x = true) (finished : c.finish? = some command) (position : Nat) :
    readFrom c position s = .ok command := by
  rw [readFrom_eq, List.dropWhile_eq_nil_iff.mpr blank, finished]

theorem readFrom_of_splits {c : Cursor} {s blanks : List Char} {tokens : List Token}
    (h : Splits c s tokens blanks) (position : Nat) :
    ∃ command, readFrom c position s = .ok command := by
  induction tokens generalizing c s position with
  | nil =>
    obtain ⟨command, finished⟩ := Option.isSome_iff_exists.mp h.nil.2
    exact ⟨command, readFrom_of_blank h.nil.1 finished position⟩
  | cons t tokens ih =>
    obtain ⟨next, rest, stepped, behind, spelled⟩ := h.cons
    have fits := h.fits t (by simp)
    have gap := Splits.gap_eq fits rest
    rw [← spelled] at gap
    by_cases reason : t.terminal = .reason
    · rw [reason] at stepped
      obtain ⟨body, rfl, any⟩ := Cursor.step_reason stepped
      have took : Terminal.reason.take? (t.word.lexeme ++ rest) =
          some (t.word.lexeme ++ rest, []) := by
        have lexeme : Terminal.reason.Matches t.word.lexeme := reason ▸ fits.2
        obtain ⟨letters, eq⟩ := lexeme
        rw [eq]
        rfl
      refine readFrom_of_way gap.1 gap.2 took (any _) ?_ position
      exact fun position => ⟨_, readFrom_of_blank (by simp) rfl position⟩
    · have took := Splits.greedy fits stepped behind reason
      exact readFrom_of_way gap.1 gap.2 took stepped (ih behind) position

theorem furthest_eq_ok {a b : Except Stuck CommandPhrase} {c : CommandPhrase}
    (h : furthest a b = .ok c) : a = .ok c ∨ b = .ok c := by
  cases a <;> cases b <;> simp_all [furthest]

theorem foldl_furthest_eq_ok {readings : List (Except Stuck CommandPhrase)}
    {best : Except Stuck CommandPhrase} {c : CommandPhrase}
    (h : readings.foldl furthest best = .ok c) : best = .ok c ∨ .ok c ∈ readings := by
  induction readings generalizing best with
  | nil => exact .inl h
  | cons r readings ih =>
    rcases ih h with first | later
    · rcases furthest_eq_ok first with best | found
      · exact .inl best
      · exact .inr (by simp [found])
    · exact .inr (List.mem_cons_of_mem r later)

theorem splits_of_readFrom {c : Cursor} {position : Nat} {s : List Char} {command : CommandPhrase}
    (h : readFrom c position s = .ok command) :
    ∃ tokens blanks, Splits c s tokens blanks ∧ c.accepts tokens = some command := by
  -- On the length, since each word takes a character at least.
  induction hn : s.length using Nat.strongRecOn generalizing c position s with
  | ind n ih =>
    have whole := List.takeWhile_append_dropWhile (p := isBlank) (l := s)
    rw [readFrom_eq] at h
    split at h
    · rename_i empty finished
      cases h
      refine ⟨[], s, ⟨by simp, List.dropWhile_eq_nil_iff.mp empty, rfl, ?_⟩, finished⟩
      simp [Cursor.accepts, Cursor.run, finished]
    · rcases foldl_furthest_eq_ok h with stuck | found
      · cases stuck
      · obtain ⟨way, member, reading⟩ := List.mem_map.mp found
        have shorter := Nat.lt_of_lt_of_le (length_left_lt member) (length_dropWhile_le isBlank s)
        obtain ⟨tokens, blanks, splits, read⟩ := ih way.left.length (hn ▸ shorter) reading rfl
        obtain ⟨t, _, way_of⟩ := List.mem_filterMap.mp member
        obtain ⟨took, stepped⟩ := wayOf?_eq_some way_of
        have accepted := Cursor.accepts_cons stepped tokens
        refine ⟨⟨t, ⟨s.takeWhile isBlank, way.lexeme⟩⟩ :: tokens, blanks,
          ⟨?_, splits.blank, ?_, ?_⟩, accepted.trans read⟩
        · refine List.forall_mem_cons.mpr ⟨⟨?_, Terminal.matches_of_take? took⟩, splits.fits⟩
          exact fun x => List.mem_takeWhile_imp
        · conv_lhs => rw [← whole, ← (Terminal.take?_append took).2, splits.spelled]
          simp [spellTokens, Token.spell, Word.spell]
        · rw [accepted, read]
          rfl

/-- A text is the words of a derivation of a command, up to the blanks behind them. -/
structure Parses (text : List Char) (tree : Tree) (blanks : List Char) : Prop where
  derives : Derives (.rule .command) [tree]
  fits : tree.Fits
  spelled : text = spellTokens tree.tokens ++ blanks
  blank : ∀ x ∈ blanks, isBlank x = true

theorem parses_iff {text : List Char} {tree : Tree} {blanks : List Char} :
    Parses text tree blanks ↔
      ∃ command : CommandPhrase, command.Shaped ∧ command.tree = tree ∧
        Splits .start text tree.tokens blanks := by
  constructor
  · rintro ⟨derives, fits, spelled, blank⟩
    obtain ⟨command, shaped, rfl⟩ := command_of_derives derives fits
    refine ⟨command, shaped, rfl, fits, blank, spelled, ?_⟩
    rw [Cursor.accepts_tree shaped]
    rfl
  · rintro ⟨command, shaped, rfl, splits⟩
    exact ⟨CommandPhrase.derives shaped, splits.fits, splits.spelled, splits.blank⟩

def CommandPhrase.absorb (blanks : List Char) (c : CommandPhrase) : CommandPhrase :=
  { c with reason := c.reason.map fun word => ⟨word.gap, word.lexeme ++ blanks⟩ }

def Tree.absorb (blanks : List Char) : Tree → Tree
  | .node r children => .node r (children.map fun
      | .leaf .reason word => .leaf .reason ⟨word.gap, word.lexeme ++ blanks⟩
      | child => child)
  | tree => tree

theorem tree_absorb (blanks : List Char) (c : CommandPhrase) :
    (c.absorb blanks).tree = c.tree.absorb blanks := by
  obtain ⟨body, reason⟩ := c
  cases body <;> cases reason <;> rfl

namespace Cursor

theorem reason_of_finish {c : Cursor} {command : CommandPhrase} (h : c.finish? = some command) :
    c = reasoned command ∨ command.reason = none := by
  have operand {k : Context} {e : ExprPhrase} (h : finishOperand k e = some command) :
      command.reason = none := by
    obtain ⟨frames, pending⟩ := k
    cases frames with
    | nil =>
      cases h
      rfl
    | cons f frames => cases h
  cases c <;> simp only [finish?, reduceCtorEq, Option.some.injEq] at h
  case term k d => exact .inr (operand h)
  case explosion k head kind key => exact .inr (operand h)
  case value k e => exact .inr (operand h)
  case repeated phrase =>
    subst h
    exact .inr rfl
  case reasoned c => exact .inl (by rw [h])

theorem reasoned_of_step {c : Cursor} {t : Terminal} {w : Word} {command : CommandPhrase}
    (h : c.step t w = some (reasoned command)) : t = .reason := by
  have operand {k : Context} {e : ExprPhrase}
      (h : afterOperand k e t w = some (reasoned command)) : t = .reason := by
    unfold afterOperand at h
    split at h
    · cases h
    · split at h <;> cases h
    · split at h <;> cases h
    · rfl
    · cases h
  have term {k : Context} {d : DicePhrase} (h : afterTerm k d t w = some (reasoned command)) :
      t = .reason := by
    cases t <;> simp [afterTerm] at h
    all_goals exact operand h
  cases c with
  | term k d => exact term h
  | value k e => exact operand h
  | explosion k head kind key =>
    by_cases number : t = .number
    · subst number
      cases h
    · rw [step_explosion number] at h
      exact term h
  | repeated phrase => cases t <;> first | rfl | cases h
  | _ => cases t <;> cases h

theorem accepts_absorb {c : Cursor} {tokens : List Token} {command : CommandPhrase}
    (h : c.accepts tokens = some command) (unfinished : ∀ p, c ≠ reasoned p) (blanks : List Char) :
    c.accepts (tokens.map (Token.absorb blanks)) = some (command.absorb blanks) := by
  induction tokens generalizing c with
  | nil =>
    rcases reason_of_finish h with same | absent
    · exact absurd same (unfinished command)
    · obtain ⟨body, reason⟩ := command
      obtain rfl : reason = none := absent
      exact h
  | cons t tokens ih =>
    obtain ⟨terminal, w⟩ := t
    obtain ⟨last, ran, finished⟩ := Option.bind_eq_some_iff.mp h
    obtain ⟨next, stepped, ran⟩ := Option.bind_eq_some_iff.mp ran
    by_cases reason : terminal = .reason
    · subst reason
      obtain ⟨body, rfl, any⟩ := step_reason stepped
      cases tokens with
      | nil =>
        cases ran
        cases finished
        exact accepts_cons (any _) []
      | cons u tokens => cases ran
    · have later := ih (c := next) (Option.bind_eq_some_iff.mpr ⟨last, ran, finished⟩) ?_
      · simpa [Token.absorb, reason, accepts_cons stepped] using later
      · rintro p rfl
        exact reason (reasoned_of_step stepped)

end Cursor

theorem Parses.accepts {text : List Char} {tree : Tree} {blanks : List Char}
    (h : Parses text tree blanks) : ∃ command : CommandPhrase, command.Shaped ∧
      command.tree = tree ∧ Splits .start text tree.tokens blanks ∧
      Cursor.start.accepts (tree.tokens.map (Token.absorb blanks)) =
        some (command.absorb blanks) := by
  obtain ⟨command, shaped, rfl, splits⟩ := parses_iff.mp h
  exact ⟨command, shaped, rfl, splits,
    Cursor.accepts_absorb (Cursor.accepts_tree shaped) nofun blanks⟩

theorem Parses.unique {text : List Char} {tree tree' : Tree} {blanks blanks' : List Char}
    (h : Parses text tree blanks) (h' : Parses text tree' blanks') :
    tree.absorb blanks = tree'.absorb blanks' := by
  obtain ⟨command, _, rfl, splits, accepts⟩ := h.accepts
  obtain ⟨command', _, rfl, splits', accepts'⟩ := h'.accepts
  rw [splits.unique splits', accepts'] at accepts
  rw [← tree_absorb, ← tree_absorb, Option.some.inj accepts]

theorem Parses.read {text : List Char} {tree : Tree} {blanks : List Char}
    (h : Parses text tree blanks) : ∃ command command' : CommandPhrase, ∃ blanks' : List Char,
      command.Shaped ∧ command.tree = tree ∧ Grammar.read text = .ok command' ∧
      (∀ x ∈ blanks', isBlank x = true) ∧ command'.absorb blanks' = command.absorb blanks := by
  obtain ⟨command, shaped, rfl, splits, accepts⟩ := h.accepts
  obtain ⟨command', read⟩ := readFrom_of_splits splits 0
  obtain ⟨tokens, blanks', splits', accepts'⟩ := splits_of_readFrom read
  have longer := Cursor.accepts_absorb accepts' nofun blanks'
  rw [splits'.unique splits, accepts] at longer
  have same := (Option.some.inj longer).symm
  exact ⟨command, command', blanks', shaped, rfl, read, splits'.blank, same⟩

theorem parses_of_read {text : List Char} {command : CommandPhrase}
    (h : Grammar.read text = .ok command) :
    command.Shaped ∧ ∃ blanks, Parses text command.tree blanks := by
  obtain ⟨tokens, blanks, splits, accepts⟩ := splits_of_readFrom h
  obtain ⟨shaped, rfl⟩ := Cursor.tree_of_accepts accepts splits.fits
  exact ⟨shaped, blanks, parses_iff.mpr ⟨command, shaped, rfl, splits⟩⟩

theorem dropEndWhile_append {p : Char → Bool} {blanks : List Char} (h : ∀ x ∈ blanks, p x = true)
    (s : List Char) : dropEndWhile p (s ++ blanks) = dropEndWhile p s := by
  have reversed : ∀ x ∈ blanks.reverse, p x = true := by simpa using h
  rw [dropEndWhile, List.reverse_append, List.dropWhile_append_of_pos reversed, dropEndWhile]

theorem trim_append {blanks : List Char} (h : ∀ x ∈ blanks, isBlank x = true) (s : List Char) :
    trim (s ++ blanks) = trim s := by
  have white : ∀ x ∈ blanks, isSpace x = true := fun x member => isSpace_of_isBlank (h x member)
  unfold trim trimStart trimEnd
  rw [List.dropWhile_append]
  split
  · rename_i empty
    rw [List.isEmpty_iff.mp empty, List.dropWhile_eq_nil_iff.mpr white]
  · exact dropEndWhile_append white _

theorem CommandPhrase.build_absorb {blanks : List Char} (h : ∀ x ∈ blanks, isBlank x = true)
    (c : CommandPhrase) (colon : ∀ w ∈ c.reason, w.lexeme ≠ []) (limits : Limits) :
    (c.absorb blanks).build limits = c.build limits := by
  obtain ⟨body, reason⟩ := c
  cases reason with
  | none => rfl
  | some w =>
    obtain ⟨gap, lexeme⟩ := w
    cases lexeme with
    | nil => exact absurd rfl (colon _ rfl)
    | cons x lexeme =>
      simp [absorb, build, trim_append h]

end DiceNotation.Grammar

namespace DiceNotation

open Text Grammar

/-- A text is refused as unreadable exactly if it is not the words of a derivation. There is one
derivation, up to the blanks at the end of a reason, and the command is built from its phrase. -/
theorem parse_iff_derivation (text : String) (limits : Limits) :
    (NeverStuck (Command.parse text limits) ↔ ∃ tree blanks, Parses text.toList tree blanks) ∧
    (∀ tree blanks tree' blanks', Parses text.toList tree blanks →
      Parses text.toList tree' blanks' → tree.absorb blanks = tree'.absorb blanks') ∧
    ∀ tree blanks, Parses text.toList tree blanks → ∃ phrase : CommandPhrase,
      phrase.tree = tree ∧ phrase.Shaped ∧ Command.parse text limits = phrase.build limits := by
  have built : ∀ tree blanks, Parses text.toList tree blanks → ∃ phrase : CommandPhrase,
      phrase.tree = tree ∧ phrase.Shaped ∧ Command.parse text limits = phrase.build limits := by
    intro tree blanks h
    obtain ⟨phrase, other, blanks', shaped, eq, read, blank, same⟩ := h.read
    obtain ⟨_, _, parses⟩ := parses_of_read read
    refine ⟨phrase, eq, shaped, ?_⟩
    have colon {c : CommandPhrase} (fits : c.tree.Fits) : ∀ w ∈ c.reason, w.lexeme ≠ [] := by
      intro w present
      have row := fits_node.mp fits
      simp only [maybeLeaf, Option.mem_def.mp present, Option.toList, List.map_cons] at row
      obtain ⟨letters, spelled⟩ : ∃ letters, w.lexeme = ':' :: letters :=
        (row (.leaf .reason w) (by simp) ⟨.reason, w⟩ (by simp)).2
      simp [spelled]
    have longer := phrase.build_absorb h.blank (colon (eq ▸ h.fits)) limits
    rw [← same, other.build_absorb blank (colon parses.fits)] at longer
    rw [Command.parse, read]
    exact longer
  refine ⟨⟨?_, ?_⟩, fun _ _ _ _ h h' => h.unique h', built⟩
  · intro never
    cases read : Grammar.read text.toList with
    | error place => exact absurd (by rw [Command.parse, read]) (never text place)
    | ok phrase => exact ⟨phrase.tree, (parses_of_read read).2⟩
  · rintro ⟨tree, blanks, h⟩
    obtain ⟨phrase, _, _, eq⟩ := built tree blanks h
    rw [eq]
    exact NeverStuck.command limits phrase

/-- A blank at the end may belong to the reason or stand behind it. -/
theorem blank_behind_reason_splits_twice :
    ¬ ∀ tree blanks tree' blanks', Parses "1: ".toList tree blanks →
      Parses "1: ".toList tree' blanks' → tree = tree' ∧ blanks = blanks' := by
  have parses (tail blanks : List Char) (split : tail ++ blanks = [' ']) :
      Parses "1: ".toList
        (CommandPhrase.tree ⟨.expr (.integer ⟨[], ['1']⟩), some ⟨[], ':' :: tail⟩⟩) blanks := by
    refine ⟨CommandPhrase.derives trivial, ?_, ?_, ?_⟩
    · have digits : Digits ['1'] := ⟨by simp, by simp⟩
      have one : Word.Fits ⟨[], ['1']⟩ .integer := ⟨nofun, .inl digits⟩
      have reason : Word.Fits ⟨[], ':' :: tail⟩ .reason := ⟨nofun, tail, rfl⟩
      rw [CommandPhrase.tree, fits_node]
      simp [BodyPhrase.tree, ExprPhrase.tree, ExprPhrase.trees, maybeLeaf, one, reason]
    · have text : "1: ".toList = '1' :: ':' :: (tail ++ blanks) := by rw [split]; rfl
      rw [text]
      simp [CommandPhrase.tree, BodyPhrase.tree, ExprPhrase.tree, ExprPhrase.trees, maybeLeaf,
        spellTokens, Token.spell, Word.spell]
    · intro x member
      have blank : x ∈ [' '] := split ▸ List.mem_append_right tail member
      rw [List.mem_singleton.mp blank]
      rfl
  intro unique
  have same := (unique _ _ _ _ (parses [' '] [] rfl) (parses [] [' '] rfl)).2
  cases same

end DiceNotation
