import DiceNotation.Proofs.Dice.Chains

/-!
What the reroll stage of a term does. Dice are replaced, never added or lost: for each die that is
marked as rerolled there is one new die, and as many dice are live as before.
-/
namespace DiceNotation

variable {σ : Type} [Source σ] {sides : Option Int} {threshold : Int}

theorem Die.not_live_markRerolled (die : Die) : die.markRerolled.live = false := by
  simp [Die.live, Die.markRerolled]

theorem Die.ready_reroll (die : Die) : die.ready .reroll = die.live := by
  simp [ready, live, Origin.marked]

theorem liveCount_eq_ready (dice : List Die) :
    liveCount dice = dice.countP (Die.ready .reroll) := by
  rw [liveCount, funext Die.ready_reroll]

section Chain

variable {cap : Nat} {chain : List Die}

theorem Chain.last_of_live (h : Chain sides .reroll threshold cap chain) {d : Die}
    (member : d ∈ chain) (live : d.live = true) :
    chain.getLast? = some d ∧ (d.value ≤ threshold → chain.length = cap) := by
  cases h with
  | none => cases member
  | @ended _ before last length each fresh stop =>
    cases List.mem_append.mp member with
    | inl earlier =>
      obtain ⟨_, die, _, rfl⟩ := each d earlier
      have dead := die.not_live_markRerolled
      rw [Origin.mark, dead] at live
      cases live
    | inr here =>
      rw [List.mem_singleton.mp here]
      constructor
      · exact List.getLast?_concat
      · intro low
        rw [List.length_append, List.length_singleton, stop low]

end Chain

def Ended (threshold : Int) (cap : Nat) (dice : List Die) (chains : List (List Die)) (d : Die) :
    Prop :=
  threshold < d.value ∨ ∃ die chain, (die, chain) ∈ dice.zip chains ∧
    (die :: chain).getLast? = some d ∧ chain.length = cap

section Brings

variable {cap : Nat} {dice : List Die} {chains : List (List Die)}

theorem Brings.liveCount_withChains (h : Brings sides .reroll threshold false cap dice chains) :
    liveCount (withChains .reroll dice chains) = liveCount dice := by
  rw [liveCount_eq_ready, liveCount_eq_ready, h.countP_ready]

theorem Brings.ended (h : Brings sides .reroll threshold false cap dice chains) :
    ∀ d ∈ withChains .reroll dice chains, d.live = true → Ended threshold cap dice chains d := by
  intro d member live
  obtain ⟨die, chain, pair, place⟩ := h.exists_zip member
  by_cases high : threshold < d.value
  · exact .inl high
  refine .inr ⟨die, chain, pair, ?_⟩
  cases h.of_mem_zip pair with
  | inl idle =>
    obtain ⟨unasked, rfl⟩ := idle
    cases place with
    | inl same =>
      rw [Die.behind_nil] at same
      subst same
      exact absurd (Die.asks_reroll.mpr ⟨live, by omega⟩) unasked
    | inr inside => cases inside
  | inr brings =>
    obtain ⟨asks, chained⟩ := brings
    cases place with
    | inl same =>
      by_cases empty : chain = []
      · -- no replacement at all: only a cap of zero allows for that
        have none : cap = 0 := by
          by_contra some
          exact chained.ne_nil (by omega) empty
        subst empty
        exact ⟨congrArg some same.symm, none.symm⟩
      · rw [same, Die.behind_of_ne_nil _ _ empty, Origin.mark, die.not_live_markRerolled] at live
        cases live
    | inr inside =>
      obtain ⟨last, full⟩ := chained.last_of_live inside live
      refine ⟨?_, full (by omega)⟩
      rw [List.getLast?_cons, last]
      rfl

end Brings

def Modifier.rerollCap (limits : Limits) (m : Modifier) : Nat :=
  if m.kind = .rerollAll then limits.maxRerolls.toNat else 1

/-- One reroll: each live die at or below the threshold is marked and replaced by the dice of a
chain, and the chains stand behind the dice, in order. -/
structure Modifier.Replaces (limits : Limits) (sides : Option Int) (m : Modifier) (threshold : Int)
    (chains : List (List Die)) (dice result : List Die) : Prop where
  value : m.value = some threshold
  brings : Brings sides .reroll threshold false (m.rerollCap limits) dice chains
  whole : result = withChains .reroll dice chains
  untouched : ∀ (place : Nat) (die : Die), dice[place]? = some die →
    ¬ (die.live = true ∧ die.value ≤ threshold) → result[place]? = some die
  ended : ∀ d ∈ result, d.live = true → Ended threshold (m.rerollCap limits) dice chains d
  idle : m.rerollCap limits = 0 → result = dice

def Modifier.Rerolls (limits : Limits) (sides : Option Int) (m : Modifier)
    (dice result : List Die) : Prop :=
  ∃ threshold chains, m.Replaces limits sides threshold chains dice result

theorem Modifier.Rerolls.liveCount {limits : Limits} {m : Modifier} {dice result : List Die}
    (h : m.Rerolls limits sides dice result) : liveCount result = liveCount dice := by
  obtain ⟨threshold, chains, replaces⟩ := h
  rw [replaces.whole]
  exact replaces.brings.liveCount_withChains

theorem Brings.replaces {limits : Limits} {m : Modifier} {dice : List Die}
    {chains : List (List Die)} (value : m.value = some threshold)
    (h : Brings sides .reroll threshold false (m.rerollCap limits) dice chains) :
    m.Replaces limits sides threshold chains dice (withChains .reroll dice chains) where
  value := value
  brings := h
  whole := rfl
  untouched := by
    intro place die found high
    exact h.untouched found (mt Die.asks_reroll.mp high)
  ended := h.ended
  idle := h.withChains_of_zero

theorem Modifier.run_rerolls (limits : Limits) (sides : Option Int) {m : Modifier}
    (stage : m.kind.stage = .reroll) (valued : m.value.isSome = true) (dice : List Die) :
    Settles (m.run limits sides dice : Rolling σ (List Die))
      fun _ result => m.Rerolls limits sides dice result := by
  obtain ⟨threshold, value⟩ := Option.isSome_iff_exists.mp valued
  unfold run reroll
  simp only [stage, value]
  apply (replaceLow_settles threshold _ dice).bind
  intro _ walked walks
  obtain ⟨chains, brings, eq⟩ := walks
  subst eq
  exact .pure ⟨threshold, chains, Brings.replaces value brings⟩

theorem Modifier.run_reroll (limits : Limits) (sides : Option Int) {m : Modifier}
    (stage : m.kind.stage = .reroll) (dice : List Die) :
    Yields (m.run limits sides dice : Rolling σ (List Die))
      fun result => result = dice ∨ m.Rerolls limits sides dice result := by
  by_cases valued : m.value.isSome = true
  · apply (m.run_rerolls limits sides stage valued dice).yields.mono
    intro result rerolls
    exact .inr rerolls
  · rw [Bool.not_eq_true, Option.isSome_eq_false_iff, Option.isNone_iff_eq_none] at valued
    unfold run reroll
    simp only [stage, valued]
    split
    · exact .throw
    · exact .pure (.inl rfl)

/-- The reroll stage either stops where the source has no answer, or each of its modifiers replaces
the live dice that are too low by chains of new dice. The number of live dice stays the same. -/
theorem Stage.rerolls_replace (limits : Limits) (t : DiceTerm)
    (valued : ∀ m ∈ Stage.reroll.select t.modifiers, m.value.isSome = true) (dice : List Die)
    (s : σ) :
    Ending (Stage.reroll.run limits t dice) s fun draws result =>
      drawsOf t.sides result = drawsOf t.sides dice ++ draws ∧
        Passes (Modifier.Rerolls limits t.sides) (Stage.reroll.select t.modifiers) dice result ∧
        liveCount result = liveCount dice := by
  have settles := Stage.run_settles (σ := σ) limits t .reroll
    (fun m member => m.run_rerolls limits t.sides (kind_of_mem_select member) (valued m member))
    dice
  refine (settles.mono ?_).ending s
  intro draws result spec
  obtain ⟨draws, passes⟩ := spec
  exact ⟨draws, passes, passes.same fun m dice result => Modifier.Rerolls.liveCount⟩

/-- The first die ends at the cap of two rerolls and the last one above the threshold; both ends
are low enough for the reroll that follows. A dropped die and a high one stay. -/
theorem capped_rerolls_replaced :
    let t : DiceTerm := ⟨4, some 6, [⟨.rerollAll, some 2⟩, ⟨.reroll, some 3⟩], none, "4d6 ir2 r3"⟩
    let dice : List Die := [⟨1, .initial, false, false, false, .lowest⟩,
      ⟨5, .initial, false, false, false, .none⟩, ⟨2, .initial, true, false, false, .none⟩,
      ⟨2, .initial, false, false, false, .none⟩]
    ∃ result last,
      (Stage.reroll.run { maxRerolls := 2 } t dice).run (Script.ofList [2, 1, 3, 6, 2] false) =
        (.ok result, last) ∧
      result.map Die.value = [1, 5, 2, 2, 2, 1, 3, 6, 2] ∧
      result.map Die.live = [false, true, false, false, false, false, false, true, true] ∧
      Passes (Modifier.Rerolls { maxRerolls := 2 } t.sides) (Stage.reroll.select t.modifiers) dice
        result ∧
      liveCount result = liveCount dice := by
  intro t dice
  have valued : ∀ m ∈ Stage.reroll.select t.modifiers, m.value.isSome = true := by decide
  cases Stage.rerolls_replace { maxRerolls := 2 } t valued dice
      (Script.ofList [2, 1, 3, 6, 2] false) with
  | result ran answers holds =>
    refine ⟨_, _, ran, ?_, ?_, holds.2⟩
    · cases ran
      decide
    · cases ran
      decide
  | refused ran answers refusal => cases ran

end DiceNotation
