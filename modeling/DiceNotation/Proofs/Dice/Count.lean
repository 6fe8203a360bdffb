import DiceNotation.Proofs.Dice.Explosions
import DiceNotation.Proofs.Dice.Rerolls
import DiceNotation.Proofs.Dice.Selection
import Mathlib.Tactic.Ring

/-!
How many dice a term can have. No modifier brings more dice than the caps on rerolls and explosions
allow, and of each kind only one takes effect, however many are written.
-/
namespace DiceNotation

variable {σ : Type} [Source σ] {sides : Option Int}

def Limits.cap (limits : Limits) : Nat := max limits.maxRerolls.toNat limits.maxExplosions.toNat

def Grows (limits : Limits) (dice result : List Die) : Prop :=
  result.length + 1 ≤ (dice.length + 1) * (limits.cap + 2)

theorem grows_of_length {limits : Limits} {dice result : List Die}
    (same : result.length = dice.length) : Grows limits dice result := by
  rw [Grows, same]
  exact Nat.le_mul_of_pos_right _ (Nat.succ_pos _)

theorem Brings.grows {limits : Limits} {origin : Origin} {threshold : Int} {shared : Bool}
    {cap : Nat} {dice : List Die} {chains : List (List Die)}
    (h : Brings sides origin threshold shared cap dice chains) (few : cap ≤ limits.cap + 1) :
    Grows limits dice (withChains origin dice chains) := by
  have new := h.length_flatten_le
  have more : dice.length * cap ≤ dice.length * (limits.cap + 1) := Nat.mul_le_mul_left _ few
  have whole : (dice.length + 1) * (limits.cap + 2) =
      dice.length * (limits.cap + 1) + dice.length + limits.cap + 2 := by ring
  rw [Grows, h.length_withChains, whole]
  omega

theorem Modifier.rerollCap_le (limits : Limits) (m : Modifier) :
    m.rerollCap limits ≤ limits.cap + 1 := by
  unfold rerollCap Limits.cap
  split <;> omega

theorem Modifier.explosionCap_le (limits : Limits) (m : Modifier) :
    m.explosionCap limits ≤ limits.cap + 1 := by
  unfold explosionCap Limits.cap
  split <;> omega

theorem length_select (kind : ModifierKind) (n : Int) (dice : List Die) :
    (select kind n dice).length = dice.length := by
  obtain ⟨dropped, _, eq⟩ := select_dropPlaces kind n dice
  rw [eq, dropPlaces, List.length_mapIdx]

variable (sides)

theorem Modifier.run_grows (limits : Limits) (dice : List Die) (m : Modifier) :
    Yields (m.run limits sides dice : Rolling σ (List Die)) (Grows limits dice) := by
  cases stage : m.kind.stage with
  | reroll =>
    apply (m.run_reroll limits sides stage dice).mono
    intro result outcome
    cases outcome with
    | inl same => exact grows_of_length (congrArg List.length same)
    | inr rerolls =>
      obtain ⟨_, chains, replaces⟩ := rerolls
      rw [replaces.whole]
      exact replaces.brings.grows (m.rerollCap_le limits)
  | explosion =>
    apply (m.run_explosion limits sides stage dice).mono
    intro result outcome
    cases outcome with
    | inl same => exact grows_of_length (congrArg List.length same)
    | inr explodes =>
      obtain ⟨_, chains, explodes⟩ := explodes
      rw [explodes.whole]
      exact explodes.brings.grows (m.explosionCap_le limits)
  | selection =>
    unfold run
    simp only [stage]
    cases m.value with
    | none => exact .throw
    | some n => exact .pure (grows_of_length (length_select m.kind n dice))

theorem foldlM_run_length (limits : Limits) (modifiers : List Modifier) (dice : List Die) :
    Yields (modifiers.foldlM (Modifier.run limits sides) dice : Rolling σ (List Die))
      fun result => result.length + 1 ≤
        (dice.length + 1) * (limits.cap + 2) ^ modifiers.length := by
  induction modifiers generalizing dice with
  | nil => exact .pure (Nat.le_of_eq (Nat.mul_one _).symm)
  | cons m modifiers ih =>
    rw [List.foldlM_cons]
    apply (Modifier.run_grows sides limits dice m).bind
    intro next grown
    apply (ih next).mono
    intro result length
    calc result.length + 1 ≤ (next.length + 1) * (limits.cap + 2) ^ modifiers.length := length
      _ ≤ (dice.length + 1) * (limits.cap + 2) * (limits.cap + 2) ^ modifiers.length :=
          Nat.mul_le_mul_right _ grown
      _ = (dice.length + 1) * (limits.cap + 2) ^ (modifiers.length + 1) := by ring

def ModifierKind.all : List ModifierKind :=
  [explode, explodeAll, reroll, rerollAll, keepHigh, keepLow, dropHigh, dropLow]

theorem ModifierKind.mem_all (kind : ModifierKind) : kind ∈ all := by
  cases kind <;> decide

theorem lastOfEach_kinds (modifiers : List Modifier) :
    ((lastOfEach modifiers).map Modifier.kind).Nodup := by
  induction modifiers with
  | nil => exact List.nodup_nil
  | cons m rest ih =>
    unfold lastOfEach
    split
    · exact ih
    · rename_i last
      rw [List.map_cons, List.nodup_cons]
      refine ⟨?_, ih⟩
      intro again
      obtain ⟨later, member, same⟩ := List.mem_map.mp again
      apply last
      rw [List.any_eq_true]
      exact ⟨later, mem_of_mem_lastOfEach member, decide_eq_true same⟩

theorem lastOfEach_length (modifiers : List Modifier) : (lastOfEach modifiers).length ≤ 8 := by
  have few := (lastOfEach_kinds modifiers).length_le_of_subset fun kind _ => kind.mem_all
  rwa [List.length_map] at few

theorem Stage.run_length (limits : Limits) (t : DiceTerm) (stage : Stage) (dice : List Die) :
    Yields (stage.run limits t dice : Rolling σ (List Die))
      fun result => result.length + 1 ≤ (dice.length + 1) * (limits.cap + 2) ^ 8 := by
  apply (foldlM_run_length t.sides limits (stage.select t.modifiers) dice).mono
  intro result length
  apply length.trans
  apply Nat.mul_le_mul_left
  exact Nat.pow_le_pow_right (Nat.succ_pos _) (lastOfEach_length _)

theorem DiceTerm.rollDice_length (limits : Limits) (t : DiceTerm) :
    Yields (t.rollDice limits : Rolling σ (List Die))
      fun dice => dice.length + 1 ≤ (t.count.toNat + 1) * (limits.cap + 2) ^ 24 := by
  apply (rollMany_settles t.count.toNat).yields.bind
  intro rolled many
  apply (Stage.run_length limits t .reroll rolled).bind
  intro rerolled first
  apply (Stage.run_length limits t .explosion rerolled).bind
  intro exploded second
  apply (Stage.run_length limits t .selection exploded).mono
  intro dice third
  calc dice.length + 1 ≤ (exploded.length + 1) * (limits.cap + 2) ^ 8 := third
    _ ≤ (rerolled.length + 1) * (limits.cap + 2) ^ 8 * (limits.cap + 2) ^ 8 :=
        Nat.mul_le_mul_right _ second
    _ ≤ (rolled.length + 1) * (limits.cap + 2) ^ 8 * (limits.cap + 2) ^ 8 *
          (limits.cap + 2) ^ 8 := Nat.mul_le_mul_right _ (Nat.mul_le_mul_right _ first)
    _ = (t.count.toNat + 1) * (limits.cap + 2) ^ 24 := by rw [many.1]; ring

/-- A cap on explosions that all dice ask for is reached, so the caps are no mere bounds. -/
theorem DiceTerm.rollDice_exploding {t : DiceTerm} {threshold : Int}
    (only : t.modifiers = [⟨.explodeAll, some threshold⟩]) (rolls : 0 < t.count.toNat)
    (limits : Limits) :
    Yields (t.rollDice limits : Rolling σ (List Die)) fun dice =>
      (∀ d ∈ dice, d.live = true) ∧ ((∀ d ∈ dice, threshold ≤ d.value) →
        dice.length = t.count.toNat + limits.maxExplosions.toNat) := by
  have rerolls (dice : List Die) : Stage.reroll.run limits t dice = (pure dice : Rolling σ _) := by
    rw [Stage.run, only]
    rfl
  have selects (dice : List Die) :
      Stage.selection.run limits t dice = (pure dice : Rolling σ _) := by
    rw [Stage.run, only]
    rfl
  have explodes (dice : List Die) : Stage.explosion.run limits t dice =
      (Modifier.run limits t.sides dice ⟨.explodeAll, some threshold⟩ : Rolling σ _) := by
    rw [Stage.run, only]
    exact bind_pure _
  rw [rollDice]
  apply (rollMany_settles t.count.toNat).yields.bind
  intro rolled many
  obtain ⟨length, fresh⟩ := many
  rw [rerolls, pure_bind, explodes]
  apply (Modifier.run_explodes limits t.sides rfl rfl rolled).yields.bind
  intro result exploded
  obtain ⟨found, chains, exploded⟩ := exploded
  obtain rfl : threshold = found := Option.some.inj exploded.value
  rw [selects]
  have live : ∀ d ∈ result, d.live = true := by
    rw [exploded.whole]
    apply exploded.brings.forall_mem_withChains (P := fun d => d.live = true)
    · exact fun d member => (fresh d member).live
    · exact fun die live _ => live
    · exact fun die fresh => ⟨fresh.live, fresh.live⟩
  refine .pure ⟨live, ?_⟩
  intro high
  have one := List.getElem_mem (length ▸ rolls : 0 < rolled.length)
  rw [← length]
  exact exploded.full rfl (fun d member => ⟨live d member, high d member⟩) one
    ((fresh _ one).not_marked .explosion)

end DiceNotation
