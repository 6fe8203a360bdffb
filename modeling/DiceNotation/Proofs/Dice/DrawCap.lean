import DiceNotation.Proofs.Dice.Count
import DiceNotation.Proofs.Dice.Ledger
import DiceNotation.Proofs.Roll.Account

/-!
How many dice a term draws. Rerolls and explosions keep the number of dice that are ready for them
as it was when the term was rolled first, so each modifier draws at most what it may for these dice,
whatever the faces are and whether or not the roll comes to an end.
-/
namespace DiceNotation

variable {σ : Type} [Source σ] {sides : Option Int}

/-- How many dice of a list may still bring another die of the origin. -/
def readyCount (origin : Origin) (dice : List Die) : Nat := dice.countP (Die.ready origin)

theorem readyCount_cons (origin : Origin) (die : Die) (dice : List Die) :
    readyCount origin (die :: dice) =
      readyCount origin dice + if die.ready origin = true then 1 else 0 :=
  List.countP_cons

theorem readyCount_le_cons (origin : Origin) (die : Die) (dice : List Die) :
    readyCount origin dice ≤ readyCount origin (die :: dice) := by
  rw [readyCount_cons]
  exact Nat.le_add_right _ _

theorem rollDie_costs (origin : Origin) :
    Costs 1 (rollDie sides origin : Rolling σ Die) (rollDie sides origin) := by
  unfold rollDie
  cases sides with
  | none => exact (Costs.drawFace 3).finish fun face => .pure _
  | some n => exact (Costs.drawFace n).finish fun face => .pure _

theorem rollMany_costs (n : Nat) :
    Costs n (rollMany sides n : Rolling σ (List Die)) (rollMany sides n) := by
  induction n with
  | zero => exact .pure []
  | succ n ih =>
    apply (rollDie_costs .initial).bind
    intro die
    exact ih.finish fun rest => .pure _

theorem rerollChain_costs (threshold : Int) (cap : Nat) :
    Costs cap (rerollChain sides threshold cap : Rolling σ (List Die))
      (rerollChain sides threshold cap) := by
  induction cap with
  | zero => exact .pure []
  | succ cap ih =>
    apply (rollDie_costs .reroll).bind
    intro die
    split
    · exact .pure _
    · exact ih.finish fun rest => .pure _

theorem replaceLow_costs (threshold : Int) (cap : Nat) (dice : List Die) :
    Costs (readyCount .reroll dice * cap)
      (replaceLow sides threshold cap dice : Rolling σ (List Die × List Die))
      (replaceLow sides threshold cap dice) := by
  induction dice with
  | nil => exact .pure _
  | cons die dice ih =>
    unfold replaceLow
    split
    · rename_i low
      rw [readyCount_cons, if_pos (Die.asks_reroll.mpr low).ready, Nat.succ_mul]
      apply (rerollChain_costs threshold cap).bind
      intro chain
      exact ih.finish fun result => .pure _
    · apply Costs.mono (ih.finish fun result => .pure _)
      exact Nat.mul_le_mul_right cap (readyCount_le_cons _ die dice)

theorem explodeOnce_costs (threshold : Int) (dice : List Die) :
    Costs (readyCount .explosion dice)
      (explodeOnce sides threshold dice : Rolling σ (List Die × List Die))
      (explodeOnce sides threshold dice) := by
  induction dice with
  | nil => exact .pure _
  | cons die dice ih =>
    unfold explodeOnce
    split
    · rename_i triggers
      rw [readyCount_cons, if_pos (Die.asks_explosion.mpr triggers).ready]
      apply (rollDie_costs .explosion).bind
      intro bonus
      exact ih.finish fun result => .pure _
    · apply Costs.mono (ih.finish fun result => .pure _)
      exact readyCount_le_cons _ die dice

theorem explosionChain_affords (threshold : Int) (left : Nat) :
    Affords left (explosionChain sides threshold left : Rolling σ (List Die × Nat))
      (explosionChain sides threshold left) Prod.snd := by
  induction left with
  | zero => exact .pure (Nat.le_refl 0)
  | succ left ih =>
    have first : Costs 1 (rollDie sides .explosion : Rolling σ Die) (rollDie sides .explosion) :=
      rollDie_costs .explosion
    apply (first.frame left).bind
    intro bonus
    dsimp only
    split
    · exact ih.bind fun result => .pure (Nat.le_refl result.2)
    · exact .pure (Nat.le_refl left)

theorem explodeChains_costs (threshold : Int) (left : Nat) (dice : List Die) :
    Costs left (explodeChains sides threshold left dice : Rolling σ (List Die × List Die))
      (explodeChains sides threshold left dice) := by
  induction dice generalizing left with
  | nil => exact .pure _
  | cons die dice ih =>
    unfold explodeChains
    split
    · apply (explosionChain_affords threshold left).bind
      intro chain
      exact (ih chain.2).finish fun result => .pure _
    · exact (ih left).finish fun result => .pure _

def ModifierKind.drawCap (limits : Limits) (number : Nat) : ModifierKind → Nat
  | reroll => number
  | rerollAll => number * limits.maxRerolls.toNat
  | explode => number
  | explodeAll => limits.maxExplosions.toNat
  | keepHigh | keepLow | dropHigh | dropLow => 0

section Modifiers

variable (limits : Limits) (sides : Option Int)

theorem Modifier.reroll_costs {m : Modifier} (stage : m.kind.stage = .reroll) (dice : List Die) :
    Costs (m.kind.drawCap limits (readyCount .reroll dice))
      (m.run limits sides dice : Rolling σ (List Die)) (m.run limits sides dice) := by
  obtain ⟨kind, value⟩ := m
  unfold run reroll
  simp only at stage ⊢
  simp only [stage]
  cases value with
  | none =>
    dsimp only
    split
    · exact .throw _
    · exact .pure _
  | some threshold =>
    dsimp only
    apply Costs.finish _ fun result => .pure _
    apply (replaceLow_costs threshold _ dice).mono
    cases kind <;> cases stage
    · exact (Nat.mul_one _).le
    · exact Nat.le_refl _

theorem Modifier.explosion_costs {m : Modifier} (stage : m.kind.stage = .explosion)
    (dice : List Die) :
    Costs (m.kind.drawCap limits (readyCount .explosion dice))
      (m.run limits sides dice : Rolling σ (List Die)) (m.run limits sides dice) := by
  obtain ⟨kind, value⟩ := m
  unfold run explode
  simp only at stage ⊢
  simp only [stage]
  cases value.or sides with
  | none =>
    dsimp only
    split
    · exact .throw _
    · exact .pure _
  | some threshold =>
    cases kind <;> cases stage
    · exact (explodeOnce_costs threshold dice).finish fun result => .pure _
    · exact (explodeChains_costs threshold _ dice).finish fun result => .pure _

theorem Modifier.selection_costs {m : Modifier} (stage : m.kind.stage = .selection)
    (dice : List Die) :
    Costs 0 (m.run limits sides dice : Rolling σ (List Die)) (m.run limits sides dice) := by
  unfold run
  simp only [stage]
  cases m.value with
  | none => exact .throw _
  | some n => exact .pure _

end Modifiers

theorem Stage.select_sum_le (stage : Stage) (modifiers : List Modifier)
    (cost : ModifierKind → Nat) :
    ((stage.select modifiers).map fun m => cost m.kind).sum ≤
      ((ModifierKind.all.filter (·.stage = stage)).map cost).sum := by
  have kinds : (stage.select modifiers).map Modifier.kind ⊆
      ModifierKind.all.filter (·.stage = stage) := by
    intro kind member
    obtain ⟨m, selected, rfl⟩ := List.mem_map.mp member
    exact List.mem_filter.mpr ⟨m.kind.mem_all, decide_eq_true (kind_of_mem_select selected)⟩
  obtain ⟨some, same, part⟩ := List.subperm_of_subset (lastOfEach_kinds _) kinds
  have sums := ((same.map cost).sum_eq).symm
  rw [List.map_map] at sums
  exact sums.trans_le ((part.map cost).sum_le_sum fun _ _ => Nat.zero_le _)

theorem Stage.run_costs (limits : Limits) (t : DiceTerm) (stage : Stage)
    (cost : ModifierKind → Nat) {P : List Die → Prop}
    (each : ∀ m : Modifier, m.kind.stage = stage → ∀ dice, P dice →
      Costs (cost m.kind) (m.run limits t.sides dice : Rolling σ (List Die))
        (m.run limits t.sides dice) ∧
        Yields (m.run limits t.sides dice : Rolling σ (List Die)) P)
    {dice : List Die} (holds : P dice) :
    Costs ((ModifierKind.all.filter (·.stage = stage)).map cost).sum
      (stage.run limits t dice : Rolling σ (List Die)) (stage.run limits t dice) := by
  apply Costs.mono _ (stage.select_sum_le t.modifiers cost)
  have kinds : ∀ m ∈ stage.select t.modifiers, m.kind.stage = stage :=
    fun m member => kind_of_mem_select member
  unfold run
  generalize stage.select t.modifiers = modifiers at kinds
  induction modifiers generalizing dice with
  | nil => exact .pure dice
  | cons m modifiers ih =>
    rw [List.forall_mem_cons] at kinds
    obtain ⟨costs, keeps⟩ := each m kinds.1 dice holds
    rw [List.map_cons, List.sum_cons, Nat.add_comm, List.foldlM_cons, List.foldlM_cons]
    apply costs.bind_yields keeps
    intro next kept
    exact ih kept kinds.2

/-- Before and after a reroll: as many dice are live as were rolled at first, and none has exploded
or was dropped. -/
structure RerollReady (sides : Option Int) (n : Nat) (dice : List Die) : Prop where
  booked : Booked sides n dice ∧ Plain dice
  ready : readyCount .reroll dice = n

/-- Before and after an explosion: as many live dice have not exploded as were rolled at first, and
so many were rerolled. -/
structure ExplosionReady (sides : Option Int) (n rerolled : Nat) (dice : List Die) : Prop where
  booked : Booked sides n dice
  ready : readyCount .explosion dice = n
  rerolled : dice.countP Die.rerolled = rerolled

theorem RerollReady.of_fresh {n : Nat} {dice : List Die} (length : dice.length = n)
    (fresh : ∀ d ∈ dice, d.Fresh sides .initial) : RerollReady sides n dice where
  booked := Booked.of_fresh length fresh
  ready := by
    rw [readyCount, ← length, List.countP_eq_length]
    intro d member
    exact (fresh d member).ready .reroll

theorem RerollReady.explosionReady {n : Nat} {dice : List Die} (h : RerollReady sides n dice) :
    ExplosionReady sides n (dice.countP Die.rerolled) dice where
  booked := h.booked.1
  ready := by
    rw [← h.ready]
    apply List.countP_congr
    intro d member
    have unexploded : d.exploded = false := (h.booked.2 d member).1
    rw [Die.ready_reroll]
    simp [Die.ready, Origin.marked, unexploded]
  rerolled := rfl

section Keeping

variable (limits : Limits) {n rerolled : Nat} {dice : List Die}

theorem Modifier.keeps_rerollReady {m : Modifier} (stage : m.kind.stage = .reroll)
    (ready : RerollReady sides n dice) :
    Yields (m.run limits sides dice : Rolling σ (List Die)) (RerollReady sides n) := by
  apply ((m.run_booked_reroll limits sides stage ready.booked).and
    (m.run_reroll limits sides stage dice)).mono
  intro result spec
  refine ⟨spec.1, ?_⟩
  rw [← ready.ready]
  cases spec.2 with
  | inl same => rw [same]
  | inr rerolls =>
    obtain ⟨_, chains, replaces⟩ := rerolls
    rw [replaces.whole]
    exact replaces.brings.countP_ready

theorem Modifier.keeps_explosionReady {m : Modifier} (stage : m.kind.stage = .explosion)
    (ready : ExplosionReady sides n rerolled dice) :
    Yields (m.run limits sides dice : Rolling σ (List Die))
      (ExplosionReady sides n rerolled) := by
  apply ((m.run_booked_explosion limits sides stage ready.booked).and
    (m.run_explosion limits sides stage dice)).mono
  intro result spec
  obtain ⟨booked, outcome⟩ := spec
  cases outcome with
  | inl same => rwa [same]
  | inr explodes =>
    obtain ⟨_, chains, explodes⟩ := explodes
    have different : Origin.reroll ≠ .explosion := by decide
    have same := explodes.brings.countP_marked_of_ne different
    refine ⟨booked, ?_, ?_⟩
    · rw [explodes.whole, ← ready.ready]
      exact explodes.brings.countP_ready
    · rw [explodes.whole, ← ready.rerolled]
      exact same

theorem Modifier.selection_keeps_booked {m : Modifier} (stage : m.kind.stage = .selection)
    (kept : Booked sides n dice ∧ dice.countP Die.rerolled = rerolled) :
    Yields (m.run limits sides dice : Rolling σ (List Die)) fun result =>
      Booked sides n result ∧ result.countP Die.rerolled = rerolled := by
  unfold run
  simp only [stage]
  cases m.value with
  | none => exact .throw
  | some k =>
    obtain ⟨dropped, _, eq⟩ := select_dropPlaces m.kind k dice
    refine .pure ⟨kept.1.select m.kind k, ?_⟩
    rw [eq, countP_dropPlaces fun _ => rfl]
    exact kept.2

end Keeping

section Term

variable (limits : Limits) (t : DiceTerm)

/-- How many dice a term may draw: those that it has at first, one reroll of each and as many more
as the cap allows for, one explosion of each, and the explosions that all of them share. -/
def DiceTerm.drawCap : Nat :=
  t.count.toNat * (3 + limits.maxRerolls.toNat) + limits.maxExplosions.toNat

theorem Stage.reroll_costs {dice : List Die} (ready : RerollReady t.sides t.count.toNat dice) :
    Costs (t.count.toNat + t.count.toNat * limits.maxRerolls.toNat)
      (Stage.reroll.run limits t dice : Rolling σ (List Die)) (Stage.reroll.run limits t dice) := by
  apply Stage.run_costs limits t .reroll (ModifierKind.drawCap limits t.count.toNat) _ ready
  intro m stage dice ready
  refine ⟨?_, m.keeps_rerollReady limits stage ready⟩
  rw [← ready.ready]
  exact m.reroll_costs limits t.sides stage dice

theorem Stage.explosion_costs {rerolled : Nat} {dice : List Die}
    (ready : ExplosionReady t.sides t.count.toNat rerolled dice) :
    Costs (t.count.toNat + limits.maxExplosions.toNat)
      (Stage.explosion.run limits t dice : Rolling σ (List Die))
      (Stage.explosion.run limits t dice) := by
  apply Stage.run_costs limits t .explosion (ModifierKind.drawCap limits t.count.toNat) _ ready
  intro m stage dice ready
  refine ⟨?_, m.keeps_explosionReady limits stage ready⟩
  rw [← ready.ready]
  exact m.explosion_costs limits t.sides stage dice

theorem Stage.selection_costs (dice : List Die) :
    Costs 0 (Stage.selection.run limits t dice : Rolling σ (List Die))
      (Stage.selection.run limits t dice) := by
  apply Stage.run_costs limits t .selection (fun _ => 0) (P := fun _ => True) _ trivial
  intro m stage dice _
  exact ⟨m.selection_costs limits t.sides stage dice, ⟨fun _ => trivial⟩⟩

def DiceTerm.rollRerolled : Rolling σ (List Die) := do
  let rolled ← rollMany t.sides t.count.toNat
  Stage.reroll.run limits t rolled

def DiceTerm.rollOn (rerolled : List Die) : Rolling σ (RolledTerm × Total) := do
  let exploded ← Stage.explosion.run limits t rerolled
  let dice ← Stage.selection.run limits t exploded
  return (⟨t.text, t.sides, dice⟩, .ofDice t.scoring dice)

theorem DiceTerm.roll_eq : (t.roll limits : Rolling σ (RolledTerm × Total)) =
    t.rollRerolled limits >>= t.rollOn limits := by
  unfold roll rollDice rollRerolled rollOn
  simp only [bind_assoc]

theorem DiceTerm.rollMany_ready :
    Yields (rollMany t.sides t.count.toNat : Rolling σ (List Die))
      (RerollReady t.sides t.count.toNat) := by
  apply (rollMany_settles t.count.toNat).yields.mono
  intro rolled fresh
  exact .of_fresh fresh.1 fresh.2

theorem DiceTerm.rollRerolled_ready :
    Yields (t.rollRerolled limits : Rolling σ (List Die)) (RerollReady t.sides t.count.toNat) := by
  apply t.rollMany_ready.bind
  intro rolled ready
  exact Stage.run_keeps limits t .reroll (fun m stage dice ready =>
    m.keeps_rerollReady limits stage ready) ready

theorem DiceTerm.rollRerolled_costs :
    Costs (t.count.toNat + t.count.toNat * limits.maxRerolls.toNat + t.count.toNat)
      (t.rollRerolled limits : Rolling σ (List Die)) (t.rollRerolled limits) := by
  apply (rollMany_costs t.count.toNat).bind_yields t.rollMany_ready
  intro rolled ready
  exact Stage.reroll_costs limits t ready

theorem DiceTerm.rollOn_costs {dice : List Die} (ready : RerollReady t.sides t.count.toNat dice) :
    Costs (t.count.toNat + limits.maxExplosions.toNat)
      (t.rollOn limits dice : Rolling σ (RolledTerm × Total)) (t.rollOn limits dice) := by
  apply (Stage.explosion_costs limits t ready.explosionReady).finish
  intro exploded
  exact (Stage.selection_costs limits t exploded).finish fun dice => .pure _

theorem DiceTerm.roll_costs :
    Costs (t.drawCap limits) (t.roll limits : Rolling σ (RolledTerm × Total)) (t.roll limits) := by
  have stages : t.drawCap limits = t.count.toNat + limits.maxExplosions.toNat +
      (t.count.toNat + t.count.toNat * limits.maxRerolls.toNat + t.count.toNat) := by
    unfold drawCap
    ring
  rw [stages, roll_eq, roll_eq]
  apply (t.rollRerolled_costs limits).bind_yields (t.rollRerolled_ready limits)
  intro rerolled ready
  exact t.rollOn_costs limits ready

theorem DiceTerm.rollOn_booked {dice : List Die}
    (ready : RerollReady t.sides t.count.toNat dice) :
    Yields (t.rollOn limits dice : Rolling σ (RolledTerm × Total)) fun result =>
      Booked t.sides t.count.toNat result.1.dice ∧
        result.1.dice.countP Die.rerolled = dice.countP Die.rerolled := by
  apply (Stage.run_keeps limits t .explosion (fun m stage dice ready =>
    m.keeps_explosionReady limits stage ready) ready.explosionReady).bind
  intro exploded ready
  apply (Stage.run_keeps limits t .selection (fun m stage dice kept =>
    m.selection_keeps_booked limits stage kept) ⟨ready.booked, ready.rerolled⟩).bind
  intro dice kept
  exact .pure kept

theorem DiceTerm.rollRerolled_follows {τ : Type} [Source τ] :
    Follows (t.rollRerolled limits : Rolling σ (List Die))
      (t.rollRerolled limits : Rolling τ (List Die))
      fun draws dice => draws = drawsOf t.sides dice := by
  apply (rollMany_follows t.sides t.count.toNat).bind
  intro rolled draws same _
  apply (foldlM_run_follows limits t.sides (Stage.reroll.select t.modifiers) rolled).mono
  intro more dice grown
  rw [same, ← grown]

theorem length_requestsOf {m : Rolling σ (List Die)} {n : Rolling (Recorder σ) (List Die)}
    (follows : Follows m n fun draws dice => draws = drawsOf sides dice) {s last : σ}
    {dice : List Die} (ran : m.run s = (.ok dice, last)) :
    (requestsOf n s).length = dice.length := by
  obtain ⟨draws, same, asked⟩ := follows.requestsOf ran
  rw [asked, same, List.length_map, drawsOf, List.length_map]

theorem DiceTerm.length_requestsOf_roll {s last : σ} {rolled : RolledTerm} {total : Total}
    (ran : (t.roll limits).run s = (.ok (rolled, total), last)) :
    (requestsOf (t.roll limits) s).length = rolled.dice.length := by
  obtain ⟨draws, known, asked⟩ := (t.roll_follows limits).requestsOf ran
  rw [asked, known.1, List.length_map, RolledTerm.draws, drawsOf, List.length_map]

/-- What a term asks a source for: the dice that it has at first, then rerolls, then explosions. The
dice of a result are those that were asked for. -/
structure DiceTerm.Requests (s : σ)
    (initial rerolls explosions : List (Int × Except DrawError Int)) : Prop where
  rolled : requestsOf (rollMany t.sides t.count.toNat) s = initial
  rerolled : requestsOf (t.rollRerolled limits) s = initial ++ rerolls
  all : requestsOf (t.roll limits) s = initial ++ rerolls ++ explosions
  initial_le : initial.length ≤ t.count.toNat
  rerolls_le : rerolls.length ≤ t.count.toNat + t.count.toNat * limits.maxRerolls.toNat
  explosions_le : explosions.length ≤ t.count.toNat + limits.maxExplosions.toNat
  origins : ∀ rolled total, ((t.roll limits).run s).1 = .ok (rolled, total) →
    rolled.dice.map Die.origin = List.replicate initial.length .initial ++
      List.replicate rerolls.length .reroll ++ List.replicate explosions.length .explosion

/-- A result has a die for each draw: the books say how many of them are rerolls and explosions. -/
theorem DiceTerm.origins_of_requests {s : σ}
    {initial rerolls explosions : List (Int × Except DrawError Int)}
    (rolled : requestsOf (rollMany t.sides t.count.toNat) s = initial)
    (rerolled : requestsOf (t.rollRerolled limits) s = initial ++ rerolls)
    (all : requestsOf (t.roll limits) s = initial ++ rerolls ++ explosions)
    {result : RolledTerm} {total : Total}
    (ran : ((t.roll limits).run s).1 = .ok (result, total)) :
    result.dice.map Die.origin = List.replicate initial.length .initial ++
      List.replicate rerolls.length .reroll ++ List.replicate explosions.length .explosion := by
  have run : (t.roll limits).run s = (.ok (result, total), ((t.roll limits).run s).2) :=
    Prod.ext ran rfl
  have parts := run
  rw [roll_eq] at parts
  obtain ⟨dice, now, ranRerolled, ranOn⟩ := run_bind_eq_ok parts
  obtain ⟨first, before, ranRolled, _⟩ := run_bind_eq_ok ranRerolled
  have ready := (t.rollRerolled_ready limits).result ranRerolled
  have books := (t.rollOn_booked limits ready).result ranOn
  obtain ⟨booked, kept⟩ : Booked t.sides t.count.toNat result.dice ∧
    result.dice.countP Die.rerolled = dice.countP Die.rerolled := books
  have few : first.length = t.count.toNat :=
    ((rollMany_settles t.count.toNat).yields.result ranRolled).1
  have more : dice.length = t.count.toNat + dice.countP Die.rerolled := by
    rw [ready.booked.1.length, ready.booked.2.countP_exploded, Nat.add_zero]
  have most := booked.length
  rw [kept] at most
  -- as many requests as dice, at each of the three times
  have lengthRolled := length_requestsOf (rollMany_follows t.sides t.count.toNat) ranRolled
  have lengthRerolled := length_requestsOf (t.rollRerolled_follows limits) ranRerolled
  have lengthAll := t.length_requestsOf_roll limits run
  rw [rolled] at lengthRolled
  rw [rerolled, List.length_append] at lengthRerolled
  rw [all, List.length_append, List.length_append] at lengthAll
  rw [booked.blocks, kept]
  congr 3 <;> omega

theorem DiceTerm.roll_requests (s : σ) :
    ∃ initial rerolls explosions, t.Requests limits s initial rerolls explosions := by
  obtain ⟨rerolls, rerolled, rerolls_le⟩ :=
    (rollMany_costs t.count.toNat).requestsOf_bind t.rollMany_ready (fun rolled ready =>
      Stage.reroll_costs (σ := σ) limits t ready) s
  obtain ⟨explosions, all, explosions_le⟩ :=
    (t.rollRerolled_costs limits).requestsOf_bind (t.rollRerolled_ready limits)
      (fun dice ready => t.rollOn_costs (σ := σ) limits ready) s
  rw [← roll_eq] at all
  have whole := all
  rw [rollRerolled, rerolled] at whole
  exact ⟨_, rerolls, explosions, rfl, rerolled, whole,
    ((rollMany_costs t.count.toNat).drawsAtMost s).few, rerolls_le, explosions_le,
    fun result total ran => t.origins_of_requests limits rfl rerolled whole ran⟩

end Term

end DiceNotation
