import DiceNotation.Dice.Term
import DiceNotation.Proofs.Dice.Selection
import DiceNotation.Proofs.Roll.Draws

/-!
A term asks for one die per die of its list, in the order of the list, and for no other: every
stage keeps the draws of the dice that it finds and puts the dice that it draws behind them.
-/
namespace DiceNotation

def Die.draw (sides : Option Int) (d : Die) : Draw :=
  match sides with
  | none => ⟨3, d.value + 2⟩
  | some sides => ⟨sides, d.value⟩

def drawsOf (sides : Option Int) (dice : List Die) : List Draw := dice.map (Die.draw sides)

section Marks

variable (sides : Option Int)

@[simp] theorem draw_markRerolled (d : Die) : d.markRerolled.draw sides = d.draw sides := rfl

@[simp] theorem draw_markExploded (d : Die) : d.markExploded.draw sides = d.draw sides := rfl

@[simp] theorem draw_markDropped (d : Die) : d.markDropped.draw sides = d.draw sides := rfl

@[simp] theorem drawsOf_nil : drawsOf sides [] = [] := rfl

@[simp] theorem drawsOf_cons (d : Die) (dice : List Die) :
    drawsOf sides (d :: dice) = d.draw sides :: drawsOf sides dice := rfl

@[simp] theorem drawsOf_append (first second : List Die) :
    drawsOf sides (first ++ second) = drawsOf sides first ++ drawsOf sides second := by
  simp [drawsOf]

end Marks

theorem drawsOf_select (sides : Option Int) (kind : ModifierKind) (n : Int) (dice : List Die) :
    drawsOf sides (select kind n dice) = drawsOf sides dice := by
  obtain ⟨dropped, _, eq⟩ := select_dropPlaces kind n dice
  rw [eq]
  exact map_dropPlaces (draw_markDropped sides) dropped dice

variable {σ τ : Type} [Source σ] [Source τ]

theorem rollDie_follows (sides : Option Int) (origin : Origin) :
    Follows (rollDie sides origin : Rolling σ Die) (rollDie sides origin : Rolling τ Die)
      fun draws die => draws = [die.draw sides] := by
  cases sides with
  | none =>
    refine Follows.bind (Follows.drawFace (Q := fun draws face => draws = [⟨3, face⟩])
      fun _ => rfl) ?_
    rintro face draws rfl _
    exact Follows.pure (by simp [Die.draw])
  | some sides =>
    refine Follows.bind (Follows.drawFace (Q := fun draws face => draws = [⟨sides, face⟩])
      fun _ => rfl) ?_
    rintro face draws rfl _
    exact Follows.pure (by simp [Die.draw])

theorem rollMany_follows (sides : Option Int) (n : Nat) :
    Follows (rollMany sides n : Rolling σ (List Die)) (rollMany sides n : Rolling τ (List Die))
      fun draws dice => draws = drawsOf sides dice := by
  induction n with
  | zero => exact Follows.pure rfl
  | succ n ih =>
    refine (rollDie_follows sides .initial).bind ?_
    rintro die _ rfl _
    refine ih.bind ?_
    rintro rest _ rfl _
    exact Follows.pure (by simp)

theorem rerollChain_follows (sides : Option Int) (threshold : Int) (cap : Nat) :
    Follows (rerollChain sides threshold cap : Rolling σ (List Die))
      (rerollChain sides threshold cap : Rolling τ (List Die))
      fun draws chain => draws = drawsOf sides chain := by
  induction cap with
  | zero => exact Follows.pure rfl
  | succ cap ih =>
    refine (rollDie_follows sides .reroll).bind ?_
    rintro die _ rfl _
    split
    · exact Follows.pure (by simp)
    · refine ih.bind ?_
      rintro rest _ rfl _
      exact Follows.pure (by simp)

def Walked (sides : Option Int) (dice : List Die) (draws : List Draw)
    (result : List Die × List Die) : Prop :=
  drawsOf sides result.1 = drawsOf sides dice ∧ draws = drawsOf sides result.2

theorem replaceLow_follows (sides : Option Int) (threshold : Int) (cap : Nat) (dice : List Die) :
    Follows (replaceLow sides threshold cap dice : Rolling σ (List Die × List Die))
      (replaceLow sides threshold cap dice : Rolling τ (List Die × List Die))
      (Walked sides dice) := by
  induction dice with
  | nil => exact Follows.pure ⟨rfl, rfl⟩
  | cons die dice ih =>
    simp only [replaceLow]
    split
    · refine (rerollChain_follows sides threshold cap).bind ?_
      rintro chain _ rfl _
      refine ih.bind ?_
      rintro ⟨marked, added⟩ _ ⟨same, rfl⟩ _
      refine Follows.pure ⟨?_, by simp⟩
      split <;> simpa using same
    · refine ih.bind ?_
      rintro ⟨marked, added⟩ _ ⟨same, rfl⟩ _
      exact Follows.pure ⟨by simpa using same, by simp⟩

def Grown (sides : Option Int) (dice : List Die) (draws : List Draw) (result : List Die) : Prop :=
  drawsOf sides result = drawsOf sides dice ++ draws

theorem Walked.grown {sides : Option Int} {dice marked added : List Die} {draws : List Draw}
    (h : Walked sides dice draws (marked, added)) : Grown sides dice draws (marked ++ added) := by
  obtain ⟨same, rfl⟩ := h
  simp only [Grown, drawsOf_append]
  rw [same]

theorem reroll_follows (sides : Option Int) (limit : Int) (m : Modifier) (dice : List Die) :
    Follows (reroll sides limit m dice : Rolling σ (List Die))
      (reroll sides limit m dice : Rolling τ (List Die)) (Grown sides dice) := by
  unfold reroll
  cases m.value with
  | none =>
    simp only
    split
    · exact Follows.throw
    · exact Follows.pure (by simp [Grown])
  | some threshold =>
    refine (replaceLow_follows sides threshold _ dice).bind ?_
    rintro ⟨marked, added⟩ draws walked _
    exact Follows.pure (by simpa using walked.grown)

theorem explodeOnce_follows (sides : Option Int) (threshold : Int) (dice : List Die) :
    Follows (explodeOnce sides threshold dice : Rolling σ (List Die × List Die))
      (explodeOnce sides threshold dice : Rolling τ (List Die × List Die))
      (Walked sides dice) := by
  induction dice with
  | nil => exact Follows.pure ⟨rfl, rfl⟩
  | cons die dice ih =>
    simp only [explodeOnce]
    split
    · refine (rollDie_follows sides .explosion).bind ?_
      rintro bonus _ rfl _
      refine ih.bind ?_
      rintro ⟨marked, added⟩ _ ⟨same, rfl⟩ _
      exact Follows.pure ⟨by simpa using same, by simp⟩
    · refine ih.bind ?_
      rintro ⟨marked, added⟩ _ ⟨same, rfl⟩ _
      exact Follows.pure ⟨by simpa using same, by simp⟩

theorem explosionChain_follows (sides : Option Int) (threshold : Int) (left : Nat) :
    Follows (explosionChain sides threshold left : Rolling σ (List Die × Nat))
      (explosionChain sides threshold left : Rolling τ (List Die × Nat))
      fun draws result => draws = drawsOf sides result.1 := by
  induction left with
  | zero => exact Follows.pure rfl
  | succ left ih =>
    refine (rollDie_follows sides .explosion).bind ?_
    rintro bonus _ rfl _
    dsimp only
    split
    · refine ih.bind ?_
      rintro ⟨chain, left⟩ _ rfl _
      exact Follows.pure (by simp)
    · exact Follows.pure (by simp)

theorem explodeChains_follows (sides : Option Int) (threshold : Int) (left : Nat)
    (dice : List Die) :
    Follows (explodeChains sides threshold left dice : Rolling σ (List Die × List Die))
      (explodeChains sides threshold left dice : Rolling τ (List Die × List Die))
      (Walked sides dice) := by
  induction dice generalizing left with
  | nil => exact Follows.pure ⟨rfl, rfl⟩
  | cons die dice ih =>
    simp only [explodeChains]
    split
    · refine (explosionChain_follows sides threshold left).bind ?_
      rintro ⟨chain, rest⟩ _ rfl _
      refine (ih rest).bind ?_
      rintro ⟨marked, added⟩ _ ⟨same, rfl⟩ _
      exact Follows.pure ⟨by simpa using same, by simp⟩
    · refine (ih left).bind ?_
      rintro ⟨marked, added⟩ _ ⟨same, rfl⟩ _
      exact Follows.pure ⟨by simpa using same, by simp⟩

theorem explode_follows (sides : Option Int) (limit : Int) (m : Modifier) (dice : List Die) :
    Follows (explode sides limit m dice : Rolling σ (List Die))
      (explode sides limit m dice : Rolling τ (List Die)) (Grown sides dice) := by
  unfold explode
  cases m.value.or sides with
  | none =>
    simp only
    split
    · exact Follows.throw
    · exact Follows.pure (by simp [Grown])
  | some threshold =>
    dsimp only
    split
    · refine (explodeChains_follows sides threshold limit.toNat dice).bind ?_
      rintro ⟨marked, added⟩ draws walked _
      exact Follows.pure (by simpa using walked.grown)
    · refine (explodeOnce_follows sides threshold dice).bind ?_
      rintro ⟨marked, added⟩ draws walked _
      exact Follows.pure (by simpa using walked.grown)

theorem Modifier.run_follows (limits : Limits) (sides : Option Int) (dice : List Die)
    (m : Modifier) :
    Follows (m.run limits sides dice : Rolling σ (List Die))
      (m.run limits sides dice : Rolling τ (List Die)) (Grown sides dice) := by
  unfold Modifier.run
  cases m.kind.stage with
  | reroll => exact reroll_follows sides limits.maxRerolls m dice
  | explosion => exact explode_follows sides limits.maxExplosions m dice
  | selection =>
    simp only
    cases m.value with
    | none => exact Follows.throw
    | some n => exact Follows.pure (by simp [Grown, drawsOf_select])

theorem foldlM_run_follows (limits : Limits) (sides : Option Int) (modifiers : List Modifier)
    (dice : List Die) :
    Follows (modifiers.foldlM (Modifier.run limits sides) dice : Rolling σ (List Die))
      (modifiers.foldlM (Modifier.run limits sides) dice : Rolling τ (List Die))
      (Grown sides dice) := by
  induction modifiers generalizing dice with
  | nil => exact Follows.pure (by simp [Grown])
  | cons m modifiers ih =>
    simp only [List.foldlM_cons]
    refine (Modifier.run_follows limits sides dice m).bind ?_
    intro next draws grown _
    refine (ih next).mono ?_
    intro more last grownLater
    rw [Grown, grownLater, grown, List.append_assoc]

theorem DiceTerm.rollDice_follows (limits : Limits) (t : DiceTerm) :
    Follows (t.rollDice limits : Rolling σ (List Die)) (t.rollDice limits : Rolling τ (List Die))
      fun draws dice => draws = drawsOf t.sides dice := by
  have stage (stage : Stage) (dice : List Die) : Follows
      (stage.run limits t dice : Rolling σ (List Die))
      (stage.run limits t dice : Rolling τ (List Die)) (Grown t.sides dice) :=
    foldlM_run_follows limits t.sides (stage.select t.modifiers) dice
  refine (rollMany_follows t.sides t.count.toNat).bind ?_
  rintro rolled _ rfl _
  refine (stage .reroll rolled).bind ?_
  intro rerolled draws grown _
  refine (stage .explosion rerolled).bind ?_
  intro exploded more grownMore _
  refine (stage .selection exploded).mono ?_
  intro last dice grownLast
  rw [grownLast, grownMore, grown, List.append_assoc, List.append_assoc]

def RolledTerm.draws (r : RolledTerm) : List Draw := drawsOf r.sides r.dice

theorem DiceTerm.roll_follows (limits : Limits) (t : DiceTerm) :
    Follows (t.roll limits : Rolling σ (RolledTerm × Total))
      (t.roll limits : Rolling τ (RolledTerm × Total))
      fun draws result => draws = result.1.draws ∧ result.1.sides = t.sides := by
  refine (t.rollDice_follows limits).bind ?_
  rintro dice _ rfl _
  exact Follows.pure ⟨by simp [RolledTerm.draws], rfl⟩

end DiceNotation
