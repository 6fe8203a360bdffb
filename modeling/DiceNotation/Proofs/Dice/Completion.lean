import DiceNotation.Dice.Term
import DiceNotation.Proofs.Command.WellFormed
import DiceNotation.Proofs.Roll.Draws

/-!
Rolling a term of a command that was built never fails on a source that answers fairly: all dice
have a side, and a modifier without a value looks for the highest face.
-/
namespace DiceNotation

variable {σ α β : Type} [Source σ]

/-- From a fair source the computation has a result and leaves a fair source. -/
def Finishes (m : Rolling σ α) : Prop :=
  ∀ ⦃s : σ⦄, Fair s → ∃ a last, m.run s = (.ok a, last) ∧ Fair last

namespace Finishes

theorem pure (a : α) : Finishes (Pure.pure a : Rolling σ α) := by
  intro s fair
  exact ⟨a, s, rfl, fair⟩

theorem bind {m : Rolling σ α} {f : α → Rolling σ β} (h : Finishes m)
    (next : ∀ a, Finishes (f a)) : Finishes (m >>= f) := by
  intro s fair
  obtain ⟨a, now, ran, fairNow⟩ := h fair
  obtain ⟨b, last, ranNext, fairLast⟩ := next a fairNow
  exact ⟨b, last, by rw [run_bind_of_ok ran, ranNext], fairLast⟩

theorem drawFace {sides : Int} (sided : 1 ≤ sides) :
    Finishes (DiceNotation.drawFace sides : Rolling σ Int) := by
  intro s fair
  obtain ⟨face, next, answer, _⟩ := fair.answer sided
  have answers : Answers s [⟨sides, face⟩] next := .cons answer (.nil next)
  exact ⟨face, next, run_drawFace_of_ok answer, fair.after answers (by simpa using sided)⟩

end Finishes

def Rollable (sides : Option Int) : Prop := ∀ n, sides = some n → 1 ≤ n

section Stages

variable {sides : Option Int}

theorem rollDie_finishes (rollable : Rollable sides) (origin : Origin) :
    Finishes (rollDie sides origin : Rolling σ Die) := by
  unfold rollDie
  cases sides with
  | none => exact (Finishes.drawFace (by decide)).bind fun face => .pure _
  | some n => exact (Finishes.drawFace (rollable n rfl)).bind fun face => .pure _

theorem rollMany_finishes (rollable : Rollable sides) (n : Nat) :
    Finishes (rollMany sides n : Rolling σ (List Die)) := by
  induction n with
  | zero => exact .pure _
  | succ n ih =>
    apply (rollDie_finishes rollable .initial).bind
    intro die
    exact ih.bind fun rest => .pure _

theorem rerollChain_finishes (rollable : Rollable sides) (threshold : Int) (cap : Nat) :
    Finishes (rerollChain sides threshold cap : Rolling σ (List Die)) := by
  induction cap with
  | zero => exact .pure _
  | succ cap ih =>
    apply (rollDie_finishes rollable .reroll).bind
    intro die
    split
    · exact .pure _
    · exact ih.bind fun rest => .pure _

theorem replaceLow_finishes (rollable : Rollable sides) (threshold : Int) (cap : Nat)
    (dice : List Die) :
    Finishes (replaceLow sides threshold cap dice : Rolling σ (List Die × List Die)) := by
  induction dice with
  | nil => exact .pure _
  | cons die dice ih =>
    unfold replaceLow
    split
    · apply (rerollChain_finishes rollable threshold cap).bind
      intro chain
      exact ih.bind fun result => .pure _
    · exact ih.bind fun result => .pure _

theorem explodeOnce_finishes (rollable : Rollable sides) (threshold : Int) (dice : List Die) :
    Finishes (explodeOnce sides threshold dice : Rolling σ (List Die × List Die)) := by
  induction dice with
  | nil => exact .pure _
  | cons die dice ih =>
    unfold explodeOnce
    split
    · apply (rollDie_finishes rollable .explosion).bind
      intro bonus
      exact ih.bind fun result => .pure _
    · exact ih.bind fun result => .pure _

theorem explosionChain_finishes (rollable : Rollable sides) (threshold : Int) (left : Nat) :
    Finishes (explosionChain sides threshold left : Rolling σ (List Die × Nat)) := by
  induction left with
  | zero => exact .pure _
  | succ left ih =>
    apply (rollDie_finishes rollable .explosion).bind
    intro bonus
    dsimp only
    split
    · exact ih.bind fun result => .pure _
    · exact .pure _

theorem explodeChains_finishes (rollable : Rollable sides) (threshold : Int) (left : Nat)
    (dice : List Die) :
    Finishes (explodeChains sides threshold left dice : Rolling σ (List Die × List Die)) := by
  induction dice generalizing left with
  | nil => exact .pure _
  | cons die dice ih =>
    unfold explodeChains
    split
    · apply (explosionChain_finishes rollable threshold left).bind
      intro chain
      exact (ih chain.2).bind fun result => .pure _
    · exact (ih left).bind fun result => .pure _

theorem Modifier.run_finishes (limits : Limits) (rollable : Rollable sides)
    (numbered : sides.isSome = true) {m : Modifier} (valued : m.WellFormed) (dice : List Die) :
    Finishes (m.run limits sides dice : Rolling σ (List Die)) := by
  obtain ⟨n, rfl⟩ := Option.isSome_iff_exists.mp numbered
  obtain ⟨kind, value⟩ := m
  cases value with
  | none =>
    have exploding : kind = .explode ∨ kind = .explodeAll := valued
    unfold run explode
    rcases exploding with rfl | rfl
    · exact (explodeOnce_finishes rollable n dice).bind fun result => .pure _
    · exact (explodeChains_finishes rollable n limits.maxExplosions.toNat dice).bind
        fun result => .pure _
  | some threshold =>
    unfold run
    dsimp only
    cases kind.stage with
    | reroll => exact (replaceLow_finishes rollable threshold _ dice).bind fun result => .pure _
    | explosion =>
      unfold explode
      dsimp only [Option.or]
      split
      · exact (explodeChains_finishes rollable threshold limits.maxExplosions.toNat dice).bind
          fun result => .pure _
      · exact (explodeOnce_finishes rollable threshold dice).bind fun result => .pure _
    | selection => exact .pure _

theorem mem_of_mem_lastOfEach {m : Modifier} {modifiers : List Modifier}
    (h : m ∈ lastOfEach modifiers) : m ∈ modifiers := by
  induction modifiers with
  | nil => cases h
  | cons first rest ih =>
    unfold lastOfEach at h
    split at h
    · exact List.mem_cons_of_mem first (ih h)
    · rcases List.mem_cons.mp h with rfl | later
      · exact List.mem_cons_self
      · exact List.mem_cons_of_mem first (ih later)

theorem Stage.mem_of_mem_select {stage : Stage} {m : Modifier} {modifiers : List Modifier}
    (h : m ∈ stage.select modifiers) : m ∈ modifiers :=
  (List.mem_filter.mp (mem_of_mem_lastOfEach h)).1

theorem foldlM_run_finishes (limits : Limits) (rollable : Rollable sides)
    {modifiers : List Modifier} (valued : ∀ m ∈ modifiers, sides.isSome = true ∧ m.WellFormed)
    (dice : List Die) :
    Finishes (modifiers.foldlM (Modifier.run limits sides) dice : Rolling σ (List Die)) := by
  induction modifiers generalizing dice with
  | nil => exact .pure _
  | cons m modifiers ih =>
    rw [List.forall_mem_cons] at valued
    rw [List.foldlM_cons]
    apply (Modifier.run_finishes limits rollable valued.1.1 valued.1.2 dice).bind
    intro next
    exact ih valued.2 next

end Stages

theorem DiceTerm.rollDice_finishes {built : Limits} {t : DiceTerm} (h : t.WellFormed built)
    (limits : Limits) : Finishes (t.rollDice limits : Rolling σ (List Die)) := by
  have rollable : Rollable t.sides := fun n eq => (h.sides n eq).1
  have valued : ∀ m ∈ t.modifiers, t.sides.isSome = true ∧ m.WellFormed := by
    intro m member
    refine ⟨?_, h.modifiers m member⟩
    cases sides : t.sides with
    | none =>
      rw [(h.fudge sides).1] at member
      cases member
    | some n => rfl
  have stage (stage : Stage) (dice : List Die) :
      Finishes (stage.run limits t dice : Rolling σ (List Die)) := by
    apply foldlM_run_finishes limits rollable
    intro m member
    exact valued m (Stage.mem_of_mem_select member)
  apply (rollMany_finishes rollable t.count.toNat).bind
  intro rolled
  apply (stage .reroll rolled).bind
  intro rerolled
  apply (stage .explosion rerolled).bind
  intro exploded
  exact stage .selection exploded

end DiceNotation
