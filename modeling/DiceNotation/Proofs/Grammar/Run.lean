import DiceNotation.Grammar.Cursor
import DiceNotation.Proofs.Grammar.Derivation

/-!
Runs of a cursor over words whose terminals are known. From the start exactly the words of the
derivations of a command are accepted, and what was read is the phrase of that derivation.
-/
namespace DiceNotation.Grammar

namespace Cursor

def run (c : Cursor) : List Token → Option Cursor
  | [] => some c
  | t :: tokens => (c.step t.terminal t.word).bind fun next => next.run tokens

def accepts (c : Cursor) (tokens : List Token) : Option CommandPhrase :=
  (c.run tokens).bind finish?

theorem run_append (c : Cursor) (first second : List Token) :
    c.run (first ++ second) = (c.run first).bind fun next => next.run second := by
  induction first generalizing c with
  | nil => rfl
  | cons t tokens ih =>
    simp only [List.cons_append, run]
    cases c.step t.terminal t.word with
    | none => rfl
    | some next => exact ih next

theorem accepts_cons {c next : Cursor} {t : Terminal} {w : Word} (h : c.step t w = some next)
    (tokens : List Token) : c.accepts (⟨t, w⟩ :: tokens) = next.accepts tokens := by
  simp [accepts, run, h]

end Cursor

def Pending.tokens (p : Pending) : List Token := tokensOf p.left.trees ++ [⟨.operator, p.operator⟩]

def pendingTokens (p : Option Pending) : List Token := p.elim [] Pending.tokens

def frameTokens : List Frame → List Token
  | [] => []
  | f :: frames => frameTokens frames ++ pendingTokens f.pending ++ [⟨.openParen, f.opening⟩]

def Context.tokens (k : Context) : List Token := frameTokens k.frames ++ pendingTokens k.pending

def PendingShaped (p : Option Pending) : Prop := ∀ q ∈ p, q.left.Shaped

def Context.Shaped (k : Context) : Prop :=
  PendingShaped k.pending ∧ ∀ f ∈ k.frames, PendingShaped f.pending

def DiceHead.Shaped (h : DiceHead) : Prop := ∀ o ∈ h.options, o.Shaped

def keyTokens (kind : ModifierKind) (key : Word) : List Token :=
  [⟨OptionPhrase.terminal ⟨kind, key, none⟩, key⟩]

def optionalToken (t : Terminal) (w : Option Word) : List Token := w.toList.map (Token.mk t)

@[simp] theorem tokensOf_maybeLeaf (t : Terminal) (w : Option Word) :
    tokensOf (maybeLeaf t w) = optionalToken t w := by
  cases w <;> simp [maybeLeaf, optionalToken]

namespace Cursor

def tokens : Cursor → List Token
  | operand k => k.tokens
  | counted k count => k.tokens ++ [⟨.count, count⟩]
  | marked k count marker => k.tokens ++ optionalToken .count count ++ [⟨.marker, marker⟩]
  | term k d => k.tokens ++ d.tree.tokens
  | explosion k h kind key => k.tokens ++ tokensOf h.trees ++ keyTokens kind key
  | option k h kind key => k.tokens ++ tokensOf h.trees ++ keyTokens kind key
  | target k d key => k.tokens ++ d.tree.tokens ++ [⟨.target, key⟩]
  | listOpened k d key opening =>
      k.tokens ++ d.tree.tokens ++ [⟨.target, key⟩, ⟨.openBracket, opening⟩]
  | listed k d key opening first others =>
      k.tokens ++ d.tree.tokens ++ [⟨.target, key⟩, ⟨.openBracket, opening⟩] ++
        tokensOf (entryTrees (some (first, others)))
  | listComma k d key opening first others comma =>
      k.tokens ++ d.tree.tokens ++ [⟨.target, key⟩, ⟨.openBracket, opening⟩] ++
        tokensOf (entryTrees (some (first, others))) ++ [⟨.comma, comma⟩]
  | doubleTarget k d key => k.tokens ++ d.tree.tokens ++ [⟨.doubleTarget, key⟩]
  | failure k d key => k.tokens ++ d.tree.tokens ++ [⟨.failure, key⟩]
  | value k e => k.tokens ++ tokensOf e.trees
  | repeating opening inner closing caret =>
      ⟨.openParen, opening⟩ :: tokensOf inner.trees ++ [⟨.closeParen, closing⟩, ⟨.caret, caret⟩]
  | repeatMode opening inner closing caret mode =>
      ⟨.openParen, opening⟩ :: tokensOf inner.trees ++
        [⟨.closeParen, closing⟩, ⟨.caret, caret⟩, ⟨.repeatMode, mode⟩]
  | repeated phrase => phrase.tree.tokens
  | reasoned command => command.tree.tokens

def Shaped : Cursor → Prop
  | operand k => k.Shaped
  | counted k _ => k.Shaped
  | marked k _ _ => k.Shaped
  | term k d => k.Shaped ∧ d.Shaped
  | explosion k h kind _ => k.Shaped ∧ h.Shaped ∧ (kind = .explode ∨ kind = .explodeAll)
  | option k h _ _ => k.Shaped ∧ h.Shaped
  | target k d _ => k.Shaped ∧ d.Shaped ∧ d.clauses.length < 3
  | listOpened k d _ _ => k.Shaped ∧ d.Shaped ∧ d.clauses.length < 3
  | listed k d _ _ _ _ => k.Shaped ∧ d.Shaped ∧ d.clauses.length < 3
  | listComma k d _ _ _ _ _ => k.Shaped ∧ d.Shaped ∧ d.clauses.length < 3
  | doubleTarget k d _ => k.Shaped ∧ d.Shaped ∧ d.clauses.length < 3
  | failure k d _ => k.Shaped ∧ d.Shaped ∧ d.clauses.length < 3
  | value k e => k.Shaped ∧ e.Shaped ∧ ¬ e.IsBinary
  | repeating _ inner _ _ => inner.Shaped
  | repeatMode _ inner _ _ _ => inner.Shaped
  | repeated phrase => phrase.inner.Shaped
  | reasoned command => command.Shaped

end Cursor

theorem tokens_join (k : Context) (e : ExprPhrase) :
    tokensOf (k.join e).trees = pendingTokens k.pending ++ tokensOf e.trees := by
  cases h : k.pending <;> simp [Context.join, h, pendingTokens, Pending.tokens, ExprPhrase.trees]

theorem shaped_join {k : Context} {e : ExprPhrase} (context : k.Shaped) (shaped : e.Shaped)
    (operand : ¬ e.IsBinary) : (k.join e).Shaped := by
  cases h : k.pending with
  | none => simpa [Context.join, h] using shaped
  | some p =>
    have left := context.1 p (by simp [h])
    simpa [Context.join, h] using ⟨left, shaped, operand⟩

theorem tokensOf_scoringTrees (clauses : List ClausePhrase) :
    tokensOf (scoringTrees clauses) = tokensOf (clauses.map ClausePhrase.tree) := by
  cases clauses <;> simp [scoringTrees]

theorem tokens_addOption (h : DiceHead) (o : OptionPhrase) :
    (h.addOption o).tree.tokens = tokensOf h.trees ++ o.tree.tokens := by
  simp [DiceHead.addOption, DicePhrase.tree, DiceHead.trees, scoringTrees]

theorem tokens_addClause (d : DicePhrase) (c : ClausePhrase) :
    (d.addClause c).tree.tokens = d.tree.tokens ++ c.tree.tokens := by
  simp [DicePhrase.addClause, DicePhrase.tree, tokensOf_scoringTrees]

theorem tokens_option (o : OptionPhrase) :
    o.tree.tokens = keyTokens o.kind o.key ++ optionalToken .number o.number := by
  simp [OptionPhrase.tree, keyTokens, OptionPhrase.terminal]

theorem shaped_addOption {h : DiceHead} {o : OptionPhrase} (head : h.Shaped) (option : o.Shaped) :
    (h.addOption o).Shaped := by
  refine ⟨?_, by simp [DiceHead.addOption]⟩
  simp only [DiceHead.addOption, List.mem_append, List.mem_singleton, or_imp, forall_and]
  exact ⟨head, by simpa using option⟩

theorem shaped_addClause {d : DicePhrase} (h : d.Shaped) (short : d.clauses.length < 3)
    (c : ClausePhrase) : (d.addClause c).Shaped := by
  refine ⟨h.1, ?_⟩
  rw [DicePhrase.addClause, List.length_append, List.length_singleton]
  omega

namespace Cursor

theorem afterOperand_tokens {k : Context} {e : ExprPhrase} {t : Terminal} {w : Word}
    {next : Cursor} (h : afterOperand k e t w = some next) :
    next.tokens = k.tokens ++ tokensOf e.trees ++ [⟨t, w⟩] := by
  obtain ⟨frames, pending⟩ := k
  cases t <;> simp only [afterOperand, reduceCtorEq, Option.some.injEq] at h
  case operator =>
    subst h
    simp [tokens, Context.tokens, pendingTokens, Pending.tokens, tokens_join]
  case closeParen =>
    cases frames with
    | nil => simp at h
    | cons f frames =>
      simp only [Option.some.injEq] at h
      subst h
      simp [tokens, Context.tokens, frameTokens, ExprPhrase.trees, tokens_join]
  case caret =>
    split at h
    · simp only [Option.some.injEq] at h
      subst h
      simp [tokens, Context.tokens, frameTokens, pendingTokens, ExprPhrase.trees]
    · simp at h
  case reason =>
    cases frames with
    | nil =>
      simp only [Option.some.injEq] at h
      subst h
      simp [tokens, CommandPhrase.tree, BodyPhrase.tree, ExprPhrase.tree, Context.tokens,
        frameTokens, optionalToken, tokens_join]
    | cons f frames => simp at h

theorem afterOperand_shaped {k : Context} {e : ExprPhrase} {t : Terminal} {w : Word}
    {next : Cursor} (h : afterOperand k e t w = some next) (context : k.Shaped)
    (shaped : e.Shaped) (operand : ¬ e.IsBinary) : next.Shaped := by
  have joined := shaped_join context shaped operand
  obtain ⟨frames, pending⟩ := k
  cases t <;> simp only [afterOperand, reduceCtorEq, Option.some.injEq] at h
  case operator =>
    subst h
    exact ⟨by simpa [PendingShaped] using joined, context.2⟩
  case closeParen =>
    cases frames with
    | nil => simp at h
    | cons f frames =>
      simp only [Option.some.injEq] at h
      subst h
      have frame := List.forall_mem_cons.mp context.2
      exact ⟨⟨frame.1, frame.2⟩, joined, id⟩
  case caret =>
    split at h
    · simp only [Option.some.injEq] at h
      subst h
      exact shaped
    · simp at h
  case reason =>
    cases frames with
    | nil =>
      simp only [Option.some.injEq] at h
      subst h
      exact joined
    | cons f frames => simp at h

theorem afterTerm_tokens {k : Context} {d : DicePhrase} {t : Terminal} {w : Word}
    {next : Cursor} (h : afterTerm k d t w = some next) (fits : w.Fits t) :
    next.tokens = k.tokens ++ d.tree.tokens ++ [⟨t, w⟩] := by
  cases t <;> simp only [afterTerm] at h
  case explode | explodeAll | bang | reroll | rerollAll | keepHigh | keepLow | dropHigh | dropLow =>
    split at h
    · rename_i absent
      simp only [Option.some.injEq] at h
      subst h
      have spelled : w.lexeme = _ := fits.2
      simp [tokens, DicePhrase.tree, absent, scoringTrees, keyTokens, OptionPhrase.terminal,
        spelled]
    · simp at h
  case target | doubleTarget | failure =>
    split at h
    · simp only [Option.some.injEq] at h
      subst h
      simp [tokens]
    · simp at h
  all_goals simpa [ExprPhrase.trees] using afterOperand_tokens h

theorem afterTerm_shaped {k : Context} {d : DicePhrase} {t : Terminal} {w : Word}
    {next : Cursor} (h : afterTerm k d t w = some next) (context : k.Shaped) (shaped : d.Shaped) :
    next.Shaped := by
  cases t <;> simp only [afterTerm] at h
  case explode | explodeAll | bang | reroll | rerollAll | keepHigh | keepLow | dropHigh | dropLow =>
    split at h
    · simp only [Option.some.injEq] at h
      subst h
      simpa [Shaped, DiceHead.Shaped, context] using shaped.1
    · simp at h
  case target | doubleTarget | failure =>
    split at h
    · rename_i short
      simp only [Option.some.injEq] at h
      subst h
      exact ⟨context, shaped, short⟩
    · simp at h
  all_goals exact afterOperand_shaped h context shaped id

theorem step_explosion {k : Context} {h : DiceHead} {kind : ModifierKind} {key : Word}
    {t : Terminal} (other : t ≠ .number) (w : Word) :
    (explosion k h kind key).step t w = (term k (h.addOption ⟨kind, key, none⟩)).step t w := by
  cases t <;> first | rfl | exact absurd rfl other

theorem step_tokens {c : Cursor} {t : Terminal} {w : Word} {next : Cursor}
    (h : c.step t w = some next) (fits : w.Fits t) : next.tokens = c.tokens ++ [⟨t, w⟩] := by
  cases c with
  | term k d => exact afterTerm_tokens h fits
  | value k e => exact afterOperand_tokens h
  | explosion k head kind key =>
    by_cases number : t = .number
    · subst number
      simp only [step, Option.some.injEq] at h
      subst h
      simp [tokens, tokens_addOption, tokens_option, optionalToken]
    · rw [step_explosion number] at h
      rw [afterTerm_tokens h fits]
      simp [tokens, tokens_addOption, tokens_option, optionalToken]
  | marked k count marker =>
    cases t <;> simp only [step, reduceCtorEq, Option.some.injEq] at h
    all_goals
      subst h
      simp [tokens, DicePhrase.tree, DiceHead.trees, SidesPhrase.tree, scoringTrees]
  | _ =>
    cases t <;> simp only [step, reduceCtorEq, Option.some.injEq] at h
    all_goals
      subst h
      simp [tokens, Context.tokens, frameTokens, pendingTokens, tokens_addOption, tokens_addClause,
        tokens_option, ClausePhrase.tree, ExprPhrase.trees, RepeatPhrase.tree, ExprPhrase.tree,
        CommandPhrase.tree, BodyPhrase.tree, entryTrees, optionalToken]

theorem step_shaped {c : Cursor} {t : Terminal} {w : Word} {next : Cursor}
    (h : c.step t w = some next) (shaped : c.Shaped) : next.Shaped := by
  have clause {k : Context} {d : DicePhrase} (p : ClausePhrase)
      (unfinished : k.Shaped ∧ d.Shaped ∧ d.clauses.length < 3) : (term k (d.addClause p)).Shaped :=
    ⟨unfinished.1, shaped_addClause unfinished.2.1 unfinished.2.2 p⟩
  cases c with
  | term k d => exact afterTerm_shaped h shaped.1 shaped.2
  | value k e => exact afterOperand_shaped h shaped.1 shaped.2.1 shaped.2.2
  | explosion k head kind key =>
    obtain ⟨context, head, exploding⟩ := shaped
    by_cases number : t = .number
    · subst number
      simp only [step, Option.some.injEq] at h
      subst h
      exact ⟨context, shaped_addOption head nofun⟩
    · rw [step_explosion number] at h
      exact afterTerm_shaped h context (shaped_addOption head fun _ => exploding)
  | operand k =>
    cases t <;> simp only [step, reduceCtorEq, Option.some.injEq] at h <;> subst h
    case openParen => exact ⟨nofun, List.forall_mem_cons.mpr shaped⟩
    case float | integer => exact ⟨shaped, trivial, id⟩
    all_goals exact shaped
  | marked k count marker =>
    cases t <;> simp only [step, reduceCtorEq, Option.some.injEq] at h <;> subst h
    all_goals exact ⟨shaped, nofun, by simp⟩
  | option k head kind key =>
    cases t <;> simp only [step, reduceCtorEq, Option.some.injEq] at h
    subst h
    exact ⟨shaped.1, shaped_addOption shaped.2 nofun⟩
  | target k d key =>
    cases t <;> simp only [step, reduceCtorEq, Option.some.injEq] at h <;> subst h
    case number => exact clause _ shaped
    case openBracket => exact shaped
  | listOpened k d key opening =>
    cases t <;> simp only [step, reduceCtorEq, Option.some.injEq] at h <;> subst h
    case number => exact shaped
    case closeBracket => exact clause _ shaped
  | listed k d key opening first others =>
    cases t <;> simp only [step, reduceCtorEq, Option.some.injEq] at h <;> subst h
    case comma => exact shaped
    case closeBracket => exact clause _ shaped
  | doubleTarget k d key | failure k d key =>
    cases t <;> simp only [step, reduceCtorEq, Option.some.injEq] at h
    subst h
    exact clause _ shaped
  | _ =>
    cases t <;> simp only [step, reduceCtorEq, Option.some.injEq] at h <;> subst h
    all_goals exact shaped

theorem finishOperand_tokens {k : Context} {e : ExprPhrase} {c : CommandPhrase}
    (h : finishOperand k e = some c) : c.tree.tokens = k.tokens ++ tokensOf e.trees := by
  obtain ⟨frames, pending⟩ := k
  cases frames with
  | nil =>
    simp only [finishOperand, Option.some.injEq] at h
    subst h
    simp [CommandPhrase.tree, BodyPhrase.tree, ExprPhrase.tree, optionalToken, tokens_join,
      Context.tokens, frameTokens]
  | cons f frames => simp [finishOperand] at h

theorem finishOperand_shaped {k : Context} {e : ExprPhrase} {c : CommandPhrase}
    (h : finishOperand k e = some c) (context : k.Shaped) (shaped : e.Shaped)
    (operand : ¬ e.IsBinary) : c.Shaped := by
  have joined := shaped_join context shaped operand
  obtain ⟨frames, pending⟩ := k
  cases frames with
  | nil =>
    simp only [finishOperand, Option.some.injEq] at h
    subst h
    exact joined
  | cons f frames => simp [finishOperand] at h

theorem finish?_tokens {c : Cursor} {command : CommandPhrase} (h : c.finish? = some command) :
    command.tree.tokens = c.tokens := by
  cases c <;> simp only [finish?, reduceCtorEq, Option.some.injEq] at h
  case term k d => simpa [ExprPhrase.trees, tokens] using finishOperand_tokens h
  case explosion k head kind key =>
    rw [finishOperand_tokens h]
    simp [tokens, ExprPhrase.trees, tokens_addOption, tokens_option, optionalToken]
  case value k e => exact finishOperand_tokens h
  case repeated phrase =>
    subst h
    simp [tokens, CommandPhrase.tree, BodyPhrase.tree, optionalToken]
  case reasoned c =>
    subst h
    rfl

theorem finish?_shaped {c : Cursor} {command : CommandPhrase} (h : c.finish? = some command)
    (shaped : c.Shaped) : command.Shaped := by
  cases c <;> simp only [finish?, reduceCtorEq, Option.some.injEq] at h
  case term k d => exact finishOperand_shaped h shaped.1 shaped.2 id
  case explosion k head kind key =>
    exact finishOperand_shaped h shaped.1 (shaped_addOption shaped.2.1 fun _ => shaped.2.2) id
  case value k e => exact finishOperand_shaped h shaped.1 shaped.2.1 shaped.2.2
  case repeated phrase =>
    subst h
    exact shaped
  case reasoned c =>
    subst h
    exact shaped

theorem run_tokens {c next : Cursor} {tokens : List Token} (h : c.run tokens = some next)
    (fits : ∀ t ∈ tokens, t.Fits) : next.tokens = c.tokens ++ tokens := by
  induction tokens generalizing c with
  | nil =>
    cases h
    simp
  | cons t tokens ih =>
    obtain ⟨middle, stepped, rest⟩ := Option.bind_eq_some_iff.mp h
    rw [List.forall_mem_cons] at fits
    rw [ih rest fits.2, step_tokens stepped fits.1]
    simp

theorem run_shaped {c next : Cursor} {tokens : List Token} (h : c.run tokens = some next)
    (shaped : c.Shaped) : next.Shaped := by
  induction tokens generalizing c with
  | nil =>
    cases h
    exact shaped
  | cons t tokens ih =>
    obtain ⟨middle, stepped, rest⟩ := Option.bind_eq_some_iff.mp h
    exact ih rest (step_shaped stepped shaped)

theorem tree_of_accepts {tokens : List Token} {command : CommandPhrase}
    (h : start.accepts tokens = some command) (fits : ∀ t ∈ tokens, t.Fits) :
    command.Shaped ∧ command.tree.tokens = tokens := by
  obtain ⟨last, ran, finished⟩ := Option.bind_eq_some_iff.mp h
  have shaped : start.Shaped := ⟨nofun, nofun⟩
  refine ⟨finish?_shaped finished (run_shaped ran shaped), ?_⟩
  rw [finish?_tokens finished, run_tokens ran fits]
  rfl

section Accepts

variable {k : Context} {rest : List Token} {command : CommandPhrase}

theorem accepts_explosion {h : DiceHead} {kind : ModifierKind} {key : Word}
    (term : (term k (h.addOption ⟨kind, key, none⟩)).accepts rest = some command) :
    (explosion k h kind key).accepts rest = some command := by
  cases rest with
  | nil => exact term
  | cons t rest =>
    obtain ⟨terminal, w⟩ := t
    by_cases number : terminal = .number
    · subst number
      simp [accepts, run, step, afterTerm, afterOperand] at term
    · simpa [accepts, run, step_explosion number] using term

theorem accepts_term {d : DicePhrase} (value : (value k (.dice d)).accepts rest = some command) :
    (term k d).accepts rest = some command := by
  cases rest with
  | nil => exact value
  | cons t rest =>
    obtain ⟨terminal, w⟩ := t
    cases terminal
    case operator | closeParen | caret | reason => exact value
    all_goals simp [accepts, run, step, afterOperand] at value

theorem step_key (k : Context) (h : DiceHead) (kind : ModifierKind) (key : Word) :
    ∃ next, (term k ⟨h, []⟩).step (OptionPhrase.terminal ⟨kind, key, none⟩) key = some next ∧
      (∀ w, next.step .number w = some (term k (h.addOption ⟨kind, key, some w⟩))) ∧
      (kind = .explode ∨ kind = .explodeAll → next = explosion k h kind key) := by
  by_cases bang : key.lexeme = ['!']
  · cases kind <;> simp [OptionPhrase.terminal, bang, step, afterTerm]
  · cases kind <;> simp [OptionPhrase.terminal, bang, step, afterTerm]

theorem accepts_option {h : DiceHead} {o : OptionPhrase} (shaped : o.Shaped)
    (term : (term k (h.addOption o)).accepts rest = some command) :
    (Cursor.term k ⟨h, []⟩).accepts (o.tree.tokens ++ rest) = some command := by
  obtain ⟨kind, key, number⟩ := o
  obtain ⟨next, stepped, numbered, exploding⟩ := step_key k h kind key
  rw [tokens_option, keyTokens, List.append_assoc, List.singleton_append, accepts_cons stepped]
  cases number with
  | none =>
    rw [exploding (shaped rfl)]
    exact accepts_explosion term
  | some w =>
    change next.accepts (⟨.number, w⟩ :: rest) = some command
    rw [accepts_cons (numbered w)]
    exact term

theorem accepts_options {h : DiceHead} {options : List OptionPhrase}
    (shaped : ∀ o ∈ options, o.Shaped)
    (term : (term k ⟨{ h with options := h.options ++ options }, []⟩).accepts rest = some command) :
    (Cursor.term k ⟨h, []⟩).accepts (tokensOf (options.map OptionPhrase.tree) ++ rest) =
      some command := by
  induction options generalizing h with
  | nil => simpa using term
  | cons o options ih =>
    rw [List.forall_mem_cons] at shaped
    rw [List.map_cons, tokensOf_cons, List.append_assoc]
    refine accepts_option shaped.1 (ih shaped.2 ?_)
    simpa [DiceHead.addOption] using term

theorem accepts_entries {d : DicePhrase} {key opening first closing : Word}
    {before after : List (Word × Word)}
    (term : (term k (d.addClause (.targetList key opening (some (first, before ++ after))
      closing))).accepts rest = some command) :
    (listed k d key opening first before).accepts
      (tokensOf (after.flatMap fun (comma, number) => [.leaf .comma comma, .leaf .number number]) ++
        ⟨.closeBracket, closing⟩ :: rest) = some command := by
  induction after generalizing before with
  | nil => simpa [accepts, run, step] using term
  | cons entry after ih =>
    have later := @ih (before ++ [entry]) (by simpa using term)
    simpa [accepts, run, step] using later

theorem accepts_clause {d : DicePhrase} {c : ClausePhrase} (short : d.clauses.length < 3)
    (term : (term k (d.addClause c)).accepts rest = some command) :
    (Cursor.term k d).accepts (c.tree.tokens ++ rest) = some command := by
  cases c with
  | targetList key opening entries closing =>
    have opened : (listOpened k d key opening).accepts
        (tokensOf (entryTrees entries) ++ ⟨.closeBracket, closing⟩ :: rest) = some command := by
      cases entries with
      | none => simpa [entryTrees, accepts, run, step] using term
      | some entries =>
        have listed :=
          @accepts_entries k rest command d key opening entries.1 closing [] entries.2 term
        simpa [entryTrees, accepts, run, step] using listed
    simpa [ClausePhrase.tree, accepts, run, step, afterTerm, short] using opened
  | _ => simpa [ClausePhrase.tree, accepts, run, step, afterTerm, short] using term

theorem accepts_clauses {h : DiceHead} {before after : List ClausePhrase}
    (short : (before ++ after).length ≤ 3)
    (term : (term k ⟨h, before ++ after⟩).accepts rest = some command) :
    (Cursor.term k ⟨h, before⟩).accepts (tokensOf (after.map ClausePhrase.tree) ++ rest) =
      some command := by
  induction after generalizing before with
  | nil => simpa using term
  | cons c after ih =>
    have more : before.length < 3 := by
      rw [List.length_append, List.length_cons] at short
      omega
    rw [List.map_cons, tokensOf_cons, List.append_assoc]
    refine accepts_clause more (@ih (before ++ [c]) (by simpa using short) ?_)
    simpa using term

theorem accepts_dice {d : DicePhrase} (shaped : d.Shaped)
    (value : (value k (.dice d)).accepts rest = some command) :
    (operand k).accepts (d.tree.tokens ++ rest) = some command := by
  obtain ⟨⟨count, marker, sides, options⟩, clauses⟩ := d
  have scored := @accepts_clauses k rest command ⟨count, marker, sides, options⟩ [] clauses shaped.2
    (accepts_term value)
  have first := accepts_options (h := ⟨count, marker, sides, []⟩) shaped.1 scored
  have started : (marked k count marker).accepts (sides.tree.tokens ++
      (tokensOf (options.map OptionPhrase.tree) ++
        (tokensOf (clauses.map ClausePhrase.tree) ++ rest))) = some command := by
    cases sides <;> simpa [SidesPhrase.tree, accepts, run, step] using first
  simp only [DicePhrase.tree, DiceHead.trees, tokens_node, tokensOf_append, tokensOf_cons,
    tokens_leaf, tokensOf_maybeLeaf, tokensOf_scoringTrees, List.append_assoc]
  cases count with
  | none => simpa [optionalToken, accepts, run, step] using started
  | some count => simpa [optionalToken, accepts, run, step] using started

theorem accepts_binary {frames : List Frame} {left right : ExprPhrase} {operator : Word}
    (whole : (value ⟨frames, none⟩ (.binary left operator right)).accepts rest = some command) :
    (value ⟨frames, some ⟨left, operator⟩⟩ right).accepts rest = some command := by
  cases rest with
  | nil => exact whole
  | cons t rest =>
    obtain ⟨terminal, w⟩ := t
    have same : (value ⟨frames, some ⟨left, operator⟩⟩ right).step terminal w =
        (value ⟨frames, none⟩ (.binary left operator right)).step terminal w := by
      cases terminal <;> cases frames <;> rfl
    simpa [accepts, run, same] using whole

/-- The words of an expression are accepted where an operand is due: anywhere, if it is a single
operand, and in front of everything else, if it is an operation. -/
theorem accepts_expr {e : ExprPhrase} (shaped : e.Shaped) (fresh : e.IsBinary → k.pending = none)
    (after : (value k e).accepts rest = some command) :
    (operand k).accepts (tokensOf e.trees ++ rest) = some command := by
  induction e generalizing k rest with
  | dice term =>
    have words := accepts_dice shaped after
    simpa [ExprPhrase.trees] using words
  | float word => simpa [ExprPhrase.trees, accepts, run, step] using after
  | integer word => simpa [ExprPhrase.trees, accepts, run, step] using after
  | group opening inner closing ih =>
    have inside := @ih ⟨⟨k.pending, opening⟩ :: k.frames, none⟩ (⟨.closeParen, closing⟩ :: rest)
      shaped (fun _ => rfl)
      (by simpa [accepts, run, step, afterOperand, Context.join] using after)
    simpa [ExprPhrase.trees, accepts, run, step] using inside
  | binary left operator right ih ihRight =>
    obtain ⟨frames, pending⟩ := k
    obtain rfl : pending = none := fresh trivial
    obtain ⟨shapedLeft, shapedRight, single⟩ := shaped
    -- From the back: the right operand finds the left one waiting, and the left one stands in front
    -- of everything else.
    have last := ihRight shapedRight (fun binary => absurd binary single) (accepts_binary after)
    have first := @ih ⟨frames, none⟩ (⟨.operator, operator⟩ :: (tokensOf right.trees ++ rest))
      shapedLeft (fun _ => rfl)
      (by simpa [accepts, run, step, afterOperand, Context.join] using last)
    simpa [ExprPhrase.trees] using first

end Accepts

/-- The words of the derivation of a phrase are read as that phrase. -/
theorem accepts_tree {c : CommandPhrase} (shaped : c.Shaped) :
    start.accepts c.tree.tokens = some c := by
  obtain ⟨body, reason⟩ := c
  cases body with
  | expr e =>
    have read : (value ⟨[], none⟩ e).accepts (optionalToken .reason reason) =
        some ⟨.expr e, reason⟩ := by
      cases reason <;> rfl
    have words := accepts_expr shaped (fun _ => rfl) read
    simpa [start, CommandPhrase.tree, BodyPhrase.tree, ExprPhrase.tree] using words
  | repeated r =>
    have read : (value ⟨[], none⟩ (.group r.opening r.inner r.closing)).accepts
        (⟨.caret, r.caret⟩ :: (optionalToken .repeatMode r.mode ++ ⟨.number, r.times⟩ ::
          optionalToken .reason reason)) = some ⟨.repeated r, reason⟩ := by
      obtain ⟨opening, inner, closing, caret, mode, times⟩ := r
      cases mode <;> cases reason <;> rfl
    have group : (ExprPhrase.group r.opening r.inner r.closing).Shaped := shaped
    have words := accepts_expr group (fun _ => rfl) read
    simpa [start, CommandPhrase.tree, BodyPhrase.tree, RepeatPhrase.tree, ExprPhrase.tree,
      ExprPhrase.trees] using words

/-- Fitting words are accepted exactly if they are the words of a derivation. -/
theorem accepts_iff {tokens : List Token} (fits : ∀ t ∈ tokens, t.Fits) {c : CommandPhrase} :
    start.accepts tokens = some c ↔ c.Shaped ∧ c.tree.tokens = tokens := by
  constructor
  · intro h
    exact tree_of_accepts h fits
  · rintro ⟨shaped, rfl⟩
    exact accepts_tree shaped

end Cursor
end DiceNotation.Grammar
