import DiceNotation.Proofs.Grammar.Run

/-!
Sequences of terminals that some command starts with. Every cursor can be led to the end of a
command, so a sequence is the start of a command exactly if a cursor can read it, and the
terminals that may follow it are those that the cursor expects.
-/
namespace DiceNotation.Grammar

def Viable (terminals : List Terminal) : Prop := ∃ more, Derivable (terminals ++ more)

namespace Terminal

def sample (t : Terminal) : List Char :=
  match t.literal? with
  | some spelling => spelling
  | none =>
      match t with
      | .marker => ['d']
      | .fudge => ['F']
      | .float => ['1', '.', '0']
      | .operator | .repeatMode => ['+']
      | .reason => [':']
      | _ => ['1']

theorem matches_sample (t : Terminal) : t.Matches t.sample := by
  have one : Digits ['1'] := ⟨by simp, by simp⟩
  have zero : Digits ['0'] := ⟨by simp, by simp⟩
  cases t
  case count => exact ⟨one, by decide⟩
  case number => exact one
  case integer => exact .inl one
  case float => exact .inl ⟨['1'], ['0'], rfl, one, zero, by decide⟩
  case marker | fudge | operator | repeatMode => exact ⟨_, rfl, by decide⟩
  case reason => exact ⟨[], rfl⟩
  all_goals exact rfl

end Terminal

def Token.sample (t : Terminal) : Token := ⟨t, ⟨[], t.sample⟩⟩

theorem Token.fits_sample (t : Terminal) : (Token.sample t).Fits :=
  ⟨nofun, t.matches_sample⟩

namespace Cursor

theorem step_isSome_congr (c : Cursor) (t : Terminal) (w v : Word) :
    (c.step t w).isSome = (c.step t v).isSome := by
  have operand (k : Context) (e : ExprPhrase) :
      (afterOperand k e t w).isSome = (afterOperand k e t v).isSome := by
    unfold afterOperand
    split
    · rfl
    · split <;> rfl
    · split <;> rfl
    · split <;> rfl
    · rfl
  have term (k : Context) (d : DicePhrase) :
      (afterTerm k d t w).isSome = (afterTerm k d t v).isSome := by
    cases t <;> simp only [afterTerm]
    case operator | closeParen | caret | reason => exact operand k (.dice d)
    all_goals first | rfl | split <;> rfl
  cases c with
  | term k d => exact term k d
  | value k e => exact operand k e
  | explosion k head kind key =>
    by_cases number : t = .number
    · subst number
      rfl
    · rw [step_explosion number, step_explosion number]
      exact term k _
  | _ => cases t <;> rfl

theorem mem_expected {c : Cursor} {t : Terminal} (w : Word) :
    t ∈ c.expected ↔ (c.step t w).isSome = true := by
  rw [c.step_isSome_congr t w ⟨[], []⟩]
  simp [expected, Terminal.mem_all]

def Productive (c : Cursor) : Prop :=
  ∃ tokens, (∀ t ∈ tokens, t.Fits) ∧ (c.accepts tokens).isSome = true

theorem productive_of_step {c next : Cursor} {t : Terminal}
    (stepped : c.step t (Token.sample t).word = some next) (h : next.Productive) :
    c.Productive := by
  obtain ⟨tokens, fits, accepted⟩ := h
  refine ⟨Token.sample t :: tokens, List.forall_mem_cons.mpr ⟨Token.fits_sample t, fits⟩, ?_⟩
  have same : c.accepts (Token.sample t :: tokens) = next.accepts tokens :=
    accepts_cons stepped tokens
  rw [same]
  exact accepted

theorem productive_of_accepts {c other : Cursor} (h : other.Productive)
    (same : ∀ {tokens command}, other.accepts tokens = some command →
      c.accepts tokens = some command) : c.Productive := by
  obtain ⟨tokens, fits, accepted⟩ := h
  obtain ⟨command, accepts⟩ := Option.isSome_iff_exists.mp accepted
  refine ⟨tokens, fits, ?_⟩
  rw [same accepts]
  rfl

theorem productive_value (k : Context) (e : ExprPhrase) : (value k e).Productive := by
  obtain ⟨frames, pending⟩ := k
  induction frames generalizing pending e with
  | nil => exact ⟨[], nofun, rfl⟩
  | cons f frames ih =>
    apply productive_of_step (t := .closeParen) rfl
    exact ih _ f.pending

theorem productive_term (k : Context) (d : DicePhrase) : (term k d).Productive :=
  productive_of_accepts (productive_value k (.dice d)) accepts_term

theorem productive (c : Cursor) : c.Productive := by
  have listed (k : Context) (d : DicePhrase) (key opening first : Word)
      (others : List (Word × Word)) : (listed k d key opening first others).Productive :=
    productive_of_step (t := .closeBracket) rfl (productive_term k _)
  have marked (k : Context) (count : Option Word) (marker : Word) :
      (marked k count marker).Productive :=
    productive_of_step (t := .number) rfl (productive_term k _)
  have finished (command : CommandPhrase) : (reasoned command).Productive := ⟨[], nofun, rfl⟩
  have repeated (phrase : RepeatPhrase) : (repeated phrase).Productive := ⟨[], nofun, rfl⟩
  cases c with
  | operand k => exact productive_of_step (t := .integer) rfl (productive_value k _)
  | counted k count => exact productive_of_step (t := .marker) rfl (marked k _ _)
  | marked k count marker => exact marked k count marker
  | term k d => exact productive_term k d
  | explosion k h kind key => exact productive_of_accepts (productive_term k _) accepts_explosion
  | listed k d key opening first others => exact listed k d key opening first others
  | listComma k d key opening first others comma =>
    exact productive_of_step (t := .number) rfl (listed k d key opening first _)
  | value k e => exact productive_value k e
  | repeating opening inner closing caret | repeatMode opening inner closing caret mode =>
    exact productive_of_step (t := .number) rfl (repeated _)
  | repeated phrase => exact repeated phrase
  | reasoned command => exact finished command
  | listOpened k d key opening =>
    exact productive_of_step (t := .closeBracket) rfl (productive_term k _)
  | option k | target k | doubleTarget k | failure k =>
    exact productive_of_step (t := .number) rfl (productive_term k _)

theorem viable_iff_run {tokens : List Token} (fits : ∀ t ∈ tokens, t.Fits) :
    Viable (tokens.map Token.terminal) ↔ (start.run tokens).isSome = true := by
  constructor
  · rintro ⟨more, tree, derives, terminals⟩
    have words : (tokens ++ more.map Token.sample).map Token.terminal =
        (tokensOf [tree]).map Token.terminal := by
      simp [terminals, Token.sample, Function.comp_def]
    obtain ⟨others, derives, eq⟩ := derives.reword words
    obtain ⟨row, rfl, _⟩ := derives_rule.mp derives
    have fit : (Tree.node .command row).Fits := by
      intro t member
      have word : t ∈ tokens ++ more.map Token.sample := by simpa [← eq] using member
      rcases List.mem_append.mp word with first | later
      · exact fits t first
      · obtain ⟨terminal, _, rfl⟩ := List.mem_map.mp later
        exact Token.fits_sample terminal
    obtain ⟨command, shaped, tree⟩ := command_of_derives derives fit
    have read := accepts_tree shaped
    rw [← tree, show (Tree.node .command row).tokens = tokens ++ more.map Token.sample by
      simpa using eq] at read
    obtain ⟨last, ran, _⟩ := Option.bind_eq_some_iff.mp read
    rw [run_append] at ran
    obtain ⟨middle, ran, _⟩ := Option.bind_eq_some_iff.mp ran
    rw [ran]
    rfl
  · intro ran
    obtain ⟨last, ran⟩ := Option.isSome_iff_exists.mp ran
    obtain ⟨more, fitsMore, accepted⟩ := last.productive
    obtain ⟨command, accepts⟩ := Option.isSome_iff_exists.mp accepted
    have read : start.accepts (tokens ++ more) = some command := by
      rw [Cursor.accepts, run_append, ran]
      exact accepts
    have all : ∀ t ∈ tokens ++ more, t.Fits :=
      List.forall_mem_append.mpr ⟨fits, fitsMore⟩
    obtain ⟨shaped, eq⟩ := tree_of_accepts read all
    refine ⟨more.map Token.terminal, command.tree, CommandPhrase.derives shaped, ?_⟩
    rw [eq, List.map_append]

/-- What a cursor expects are the terminals that can follow the words it has read. -/
theorem mem_expected_iff_viable {c : Cursor} {tokens : List Token} (fits : ∀ t ∈ tokens, t.Fits)
    (ran : start.run tokens = some c) (t : Terminal) :
    t ∈ c.expected ↔ Viable (tokens.map Token.terminal ++ [t]) := by
  have more : ∀ u ∈ tokens ++ [Token.sample t], u.Fits :=
    List.forall_mem_append.mpr ⟨fits, by simpa using Token.fits_sample t⟩
  have words : tokens.map Token.terminal ++ [t] =
      (tokens ++ [Token.sample t]).map Token.terminal := by
    simp [Token.sample]
  rw [words, viable_iff_run more, run_append, ran, mem_expected (Token.sample t).word]
  simp [run, Token.sample]

end Cursor
end DiceNotation.Grammar
