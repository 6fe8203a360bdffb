import DiceNotation.Proofs.Dice.Explosions
import DiceNotation.Proofs.Dice.Rerolls
import DiceNotation.Proofs.Dice.Selection
import Mathlib

/-!
The books of a term balance. Every die that was rolled anew is accounted for by one die that is
marked for it, and the marks of a die tell whether the total counts it.
-/
namespace DiceNotation

variable {σ : Type} [Source σ] {sides : Option Int} {n : Nat} {dice result : List Die}

/-- So many dice were rolled at first; behind them stands one reroll for each die that was rerolled,
and behind these one explosion for each die that exploded. -/
structure Booked (sides : Option Int) (n : Nat) (dice : List Die) : Prop where
  blocks : dice.map Die.origin = List.replicate n .initial ++
    List.replicate (dice.countP Die.rerolled) .reroll ++
    List.replicate (dice.countP Die.exploded) .explosion
  apart : ∀ d ∈ dice, d.rerolled = true → d.exploded = false ∧ d.dropped = false
  extremes : ∀ d ∈ dice, d.extreme = extremeShown sides d.value

def Plain (dice : List Die) : Prop := ∀ d ∈ dice, d.exploded = false ∧ d.dropped = false

theorem Plain.countP_exploded (h : Plain dice) : dice.countP Die.exploded = 0 := by
  rw [List.countP_eq_zero]
  intro d member
  rw [(h d member).1]
  exact Bool.false_ne_true

theorem Booked.of_fresh (length : dice.length = n)
    (fresh : ∀ d ∈ dice, d.Fresh sides .initial) : Booked sides n dice ∧ Plain dice := by
  have rerolled : dice.countP Die.rerolled = 0 := by
    rw [List.countP_eq_zero]
    intro d member
    have unmarked : d.rerolled = false := (fresh d member).not_marked .reroll
    rw [unmarked]
    exact Bool.false_ne_true
  have plain : Plain dice := by
    intro d member
    rw [fresh d member]
    exact ⟨rfl, rfl⟩
  refine ⟨⟨?_, ?_, ?_⟩, plain⟩
  · rw [rerolled, plain.countP_exploded, List.replicate_zero, List.replicate_zero, List.append_nil,
      List.append_nil, List.eq_replicate_iff, List.length_map]
    refine ⟨length, ?_⟩
    intro origin member
    obtain ⟨d, inside, rfl⟩ := List.mem_map.mp member
    rw [fresh d inside]
  · intro d member _
    exact plain d member
  · intro d member
    rw [fresh d member]

theorem Booked.length (h : Booked sides n dice) :
    dice.length = n + dice.countP Die.rerolled + dice.countP Die.exploded := by
  have lengths := congrArg List.length h.blocks
  simpa [Nat.add_assoc] using lengths

section Steps

variable {threshold : Int} {shared : Bool} {cap : Nat} {chains : List (List Die)}

theorem Brings.booked_reroll (h : Brings sides .reroll threshold shared cap dice chains)
    (books : Booked sides n dice) (plain : Plain dice) :
    Booked sides n (withChains .reroll dice chains) ∧ Plain (withChains .reroll dice chains) := by
  have still : Plain (withChains .reroll dice chains) := by
    apply h.forall_mem_withChains plain
    · intro die same _
      exact same
    · intro die fresh
      rw [fresh]
      exact ⟨⟨rfl, rfl⟩, ⟨rfl, rfl⟩⟩
  have rerolled : (withChains .reroll dice chains).countP Die.rerolled =
      dice.countP Die.rerolled + chains.flatten.length := h.countP_marked
  refine ⟨⟨?_, ?_, ?_⟩, still⟩
  · rw [h.map_origin, books.blocks, rerolled, plain.countP_exploded, still.countP_exploded,
      List.replicate_zero, List.append_nil, List.append_nil, List.append_assoc,
      List.replicate_append_replicate]
  · intro d member _
    exact still d member
  · apply h.forall_mem_withChains books.extremes
    · intro die same _
      exact same
    · intro die fresh
      rw [fresh]
      exact ⟨rfl, rfl⟩

theorem Brings.booked_explosion (h : Brings sides .explosion threshold shared cap dice chains)
    (books : Booked sides n dice) : Booked sides n (withChains .explosion dice chains) := by
  have exploded : (withChains .explosion dice chains).countP Die.exploded =
      dice.countP Die.exploded + chains.flatten.length := h.countP_marked
  have different : Origin.reroll ≠ .explosion := by decide
  have rerolled : (withChains .explosion dice chains).countP Die.rerolled =
      dice.countP Die.rerolled := h.countP_marked_of_ne different
  constructor
  · rw [h.map_origin, books.blocks, rerolled, exploded, List.append_assoc,
      List.replicate_append_replicate]
  · apply h.forall_mem_withChains books.apart
    · intro die _ asks marked
      have unmarked : die.rerolled = false := (Die.live_iff.mp asks.1).2
      exact absurd marked (by simp [Origin.mark, Die.markExploded, unmarked])
    · intro die fresh
      rw [fresh]
      simp [Origin.mark, Die.markExploded]
  · apply h.forall_mem_withChains books.extremes
    · intro die same _
      exact same
    · intro die fresh
      rw [fresh]
      exact ⟨rfl, rfl⟩

end Steps

theorem Booked.select (books : Booked sides n dice) (kind : ModifierKind) (k : Int) :
    Booked sides n (DiceNotation.select kind k dice) := by
  obtain ⟨dropped, live, eq⟩ := select_dropPlaces kind k dice
  rw [eq]
  constructor
  · rw [map_dropPlaces (fun _ => rfl), countP_dropPlaces (fun _ => rfl),
      countP_dropPlaces (fun _ => rfl)]
    exact books.blocks
  · apply forall_mem_dropPlaces live books.apart
    intro die _ alive marked
    have unmarked : die.rerolled = false := (Die.live_iff.mp alive).2
    exact absurd marked (by simp [Die.markDropped, unmarked])
  · apply forall_mem_dropPlaces live books.extremes
    intro die same _
    exact same

theorem Modifier.run_booked_reroll (limits : Limits) (sides : Option Int) {m : Modifier}
    (stage : m.kind.stage = .reroll) (kept : Booked sides n dice ∧ Plain dice) :
    Yields (m.run limits sides dice : Rolling σ (List Die))
      fun result => Booked sides n result ∧ Plain result := by
  apply (m.run_reroll limits sides stage dice).mono
  intro result outcome
  cases outcome with
  | inl same => rwa [same]
  | inr rerolls =>
    obtain ⟨_, chains, replaces⟩ := rerolls
    rw [replaces.whole]
    exact replaces.brings.booked_reroll kept.1 kept.2

theorem Modifier.run_booked_explosion (limits : Limits) (sides : Option Int) {m : Modifier}
    (stage : m.kind.stage = .explosion) (books : Booked sides n dice) :
    Yields (m.run limits sides dice : Rolling σ (List Die)) (Booked sides n) := by
  apply (m.run_explosion limits sides stage dice).mono
  intro result outcome
  cases outcome with
  | inl same => rwa [same]
  | inr explodes =>
    obtain ⟨_, chains, explodes⟩ := explodes
    rw [explodes.whole]
    exact explodes.brings.booked_explosion books

theorem Modifier.run_booked_selection (limits : Limits) (sides : Option Int) {m : Modifier}
    (stage : m.kind.stage = .selection) (books : Booked sides n dice) :
    Yields (m.run limits sides dice : Rolling σ (List Die)) (Booked sides n) := by
  unfold run
  simp only [stage]
  cases m.value with
  | none => exact .throw
  | some k => exact .pure (books.select m.kind k)

theorem Stage.run_keeps (limits : Limits) (t : DiceTerm) (stage : Stage) {P : List Die → Prop}
    (each : ∀ m : Modifier, m.kind.stage = stage → ∀ dice, P dice →
      Yields (m.run limits t.sides dice : Rolling σ (List Die)) P)
    {dice : List Die} (holds : P dice) :
    Yields (stage.run limits t dice : Rolling σ (List Die)) P := by
  have kinds : ∀ m ∈ stage.select t.modifiers, m.kind.stage = stage :=
    fun m member => kind_of_mem_select member
  unfold run
  generalize stage.select t.modifiers = modifiers at kinds
  induction modifiers generalizing dice with
  | nil => exact .pure holds
  | cons m modifiers ih =>
    rw [List.forall_mem_cons] at kinds
    rw [List.foldlM_cons]
    apply (each m kinds.1 dice holds).bind
    intro next kept
    exact ih kept kinds.2

theorem DiceTerm.rollDice_booked (limits : Limits) (t : DiceTerm) :
    Yields (t.rollDice limits : Rolling σ (List Die)) (Booked t.sides t.count.toNat) := by
  apply (rollMany_settles t.count.toNat).yields.bind
  intro rolled fresh
  have start := Booked.of_fresh fresh.1 fresh.2
  apply (Stage.run_keeps limits t .reroll (fun m stage dice kept =>
    m.run_booked_reroll limits t.sides stage kept) start).bind
  intro rerolled kept
  apply (Stage.run_keeps limits t .explosion (fun m stage dice books =>
    m.run_booked_explosion limits t.sides stage books) kept.1).bind
  intro exploded books
  exact Stage.run_keeps limits t .selection (fun m stage dice books =>
    m.run_booked_selection limits t.sides stage books) books

def countedDice (dice : List Die) : List Die :=
  dice.filter fun d => !d.dropped && !d.rerolled

def countedTotal (scoring : Option Scoring) (dice : List Die) : Total :=
  match scoring with
  | none => .value (.ofInt ((countedDice dice).map Die.value).sum)
  | some s => .success (((countedDice dice).map Die.value).map s.score).sum

theorem Total.ofDice_counted (scoring : Option Scoring) (dice : List Die) :
    Total.ofDice scoring dice = countedTotal scoring dice := by
  have live : liveValues dice = (countedDice dice).map Die.value := by
    rw [liveValues, countedDice]
    congr 2
    funext d
    exact Bool.not_or _ _
  unfold Total.ofDice
  rw [live]
  cases scoring with
  | none => rfl
  | some s => rfl

/-- The dice of a term are booked, its total is that of the dice which are neither dropped nor
rerolled, and a die shows an extreme on its highest face, or else on a one. -/
structure Ledger (t : DiceTerm) (dice : List Die) (total : Total) : Prop where
  booked : Booked t.sides t.count.toNat dice
  counted : total = countedTotal t.scoring dice
  highest : ∀ d ∈ dice, d.extreme = .highest ↔ t.sides = some d.value
  lowest : ∀ d ∈ dice, d.extreme = .lowest ↔
    d.value = 1 ∧ ∃ sides, t.sides = some sides ∧ sides ≠ d.value

theorem extremeShown_highest {value : Int} :
    extremeShown sides value = .highest ↔ sides = some value := by
  cases sides with
  | none => simp [extremeShown]
  | some sides =>
    simp only [extremeShown, extremeOf, Option.some.injEq]
    grind

theorem extremeShown_lowest {value : Int} : extremeShown sides value = .lowest ↔
    value = 1 ∧ ∃ n, sides = some n ∧ n ≠ value := by
  cases sides with
  | none => simp [extremeShown]
  | some sides =>
    simp only [extremeShown, extremeOf, Option.some.injEq, exists_eq_left']
    grind

/-- Whatever the modifiers, the limits and the faces are, the books of a term balance. -/
theorem DiceTerm.roll_balances (limits : Limits) (t : DiceTerm) {s last : σ} {rolled : RolledTerm}
    {total : Total} (run : (t.roll limits : Rolling σ (RolledTerm × Total)).run s =
      (.ok (rolled, total), last)) :
    rolled.sides = t.sides ∧ Ledger t rolled.dice total := by
  obtain ⟨dice, now, ran, done⟩ := run_bind_eq_ok run
  cases (run_pure_eq_ok done).1
  have booked := (t.rollDice_booked limits).result ran
  refine ⟨rfl, booked, Total.ofDice_counted t.scoring dice, ?_, ?_⟩
  · intro d member
    rw [booked.extremes d member]
    exact extremeShown_highest
  · intro d member
    rw [booked.extremes d member]
    exact extremeShown_lowest

/-- Four dice, three rerolls and four explosions, with both caps reached. -/
theorem eleven_dice_balanced :
    let t : DiceTerm := ⟨4, some 6, [⟨.explode, none⟩, ⟨.rerollAll, some 2⟩, ⟨.dropHigh, some 1⟩,
      ⟨.explodeAll, some 5⟩, ⟨.reroll, some 2⟩, ⟨.keepHigh, some 3⟩], none,
      "4d6 e ir2 D1 ie5 r2 K3"⟩
    ∃ rolled total last,
      (t.roll { maxRerolls := 2, maxExplosions := 2 }).run
          (Script.ofList [1, 6, 6, 5, 2, 1, 4, 6, 3, 5, 6] false) = (.ok (rolled, total), last) ∧
      rolled.dice.map Die.value = [1, 6, 6, 5, 2, 1, 4, 6, 3, 5, 6] ∧
      rolled.dice.map Die.rerolled =
        [true, false, false, false, true, true, false, false, false, false, false] ∧
      rolled.dice.map Die.exploded =
        [false, true, true, true, false, false, false, false, false, true, false] ∧
      Ledger t rolled.dice total := by
  intro t
  obtain ⟨rolled, shown⟩ : ∃ rolled : RolledTerm, rolled = ⟨t.text, some 6,
    [⟨1, .initial, false, true, false, .lowest⟩, ⟨6, .initial, true, false, true, .highest⟩,
     ⟨6, .initial, false, false, true, .highest⟩, ⟨5, .initial, true, false, true, .none⟩,
     ⟨2, .reroll, false, true, false, .none⟩, ⟨1, .reroll, false, true, false, .lowest⟩,
     ⟨4, .reroll, true, false, false, .none⟩, ⟨6, .explosion, false, false, false, .highest⟩,
     ⟨3, .explosion, true, false, false, .none⟩, ⟨5, .explosion, true, false, true, .none⟩,
     ⟨6, .explosion, false, false, false, .highest⟩]⟩ := ⟨_, rfl⟩
  have ran : (t.roll { maxRerolls := 2, maxExplosions := 2 } : Rolling Script _).run
      (Script.ofList [1, 6, 6, 5, 2, 1, 4, 6, 3, 5, 6] false) =
        (.ok (rolled, .value (.ofInt 18)), ⟨[1, 6, 6, 5, 2, 1, 4, 6, 3, 5, 6], [], false, 11⟩) := by
    rw [shown]
    cbv
  have balanced := DiceTerm.roll_balances _ t ran
  refine ⟨rolled, _, _, ran, ?_, ?_, ?_, balanced.2⟩
  · rw [shown]
    decide
  · rw [shown]
    decide
  · rw [shown]
    decide

end DiceNotation
