import DiceNotation.Proofs.Dice.Chains

/-!
What the explosion stage of a term does. Explosions are complete or capped: a die that can explode
does, unless the explosions of the term are used up, and no die explodes twice.
-/
namespace DiceNotation

variable {σ : Type} [Source σ] {sides : Option Int} {threshold : Int}

theorem Die.not_asks_of_exploded {die : Die} (exploded : die.exploded = true) :
    ¬ die.Asks .explosion threshold := by
  intro asks
  have unmarked : die.exploded = false := asks.2.1
  rw [exploded] at unmarked
  cases unmarked

section Once

variable {dice : List Die} {chains : List (List Die)}

theorem Chain.one {origin : Origin} {chain : List Die}
    (h : Chain sides origin threshold 1 chain) :
    ∃ die : Die, die.Fresh sides origin ∧ chain = [die] := by
  cases h with
  | @ended _ before last length each fresh stop =>
    have none : before = [] := List.length_eq_zero_iff.mp (by omega)
    subst none
    exact ⟨last, fresh, rfl⟩

theorem Brings.once (h : Brings sides .explosion threshold false 1 dice chains) :
    List.zipWith (Die.behind .explosion) dice chains =
        dice.map (fun d => if d.triggers threshold then d.markExploded else d) ∧
      chains.flatten.length = dice.countP (Die.triggers threshold) ∧
      ∀ d ∈ chains.flatten, d.Fresh sides .explosion := by
  generalize one : 1 = cap at h
  induction h with
  | nil cap => exact ⟨rfl, rfl, nofun⟩
  | @idle cap die dice chains unasked rest ih =>
    obtain ⟨marked, length, fresh⟩ := ih one
    rw [Die.asks_explosion, Bool.not_eq_true] at unasked
    rw [List.zipWith_cons_cons, Die.behind_nil, List.flatten_cons, List.nil_append, List.map_cons,
      List.countP_cons, unasked, marked, length]
    exact ⟨rfl, rfl, fresh⟩
  | @brings cap die dice chain chains asks chained rest ih =>
    subst one
    obtain ⟨marked, length, fresh⟩ := ih rfl
    obtain ⟨bonus, freshBonus, rfl⟩ := chained.one
    rw [Die.asks_explosion] at asks
    rw [List.zipWith_cons_cons, List.flatten_cons, List.map_cons, List.countP_cons, asks, marked]
    refine ⟨rfl, ?_, ?_⟩
    · simp [length]
    · rw [List.singleton_append, List.forall_mem_cons]
      exact ⟨freshBonus, fresh⟩

end Once

section All

variable {cap : Nat} {dice : List Die} {chains : List (List Die)}

theorem Brings.length_le (h : Brings sides .explosion threshold true cap dice chains) :
    chains.flatten.length ≤ cap := by
  induction h with
  | nil cap => exact Nat.zero_le cap
  | idle unasked rest ih => exact ih
  | brings asks chained rest ih =>
    have first := chained.length_le
    have others := ih
    rw [List.flatten_cons, List.length_append]
    simp only [ite_true] at others
    omega

theorem Chain.complete {left : Nat} {chain : List Die}
    (h : Chain sides .explosion threshold left chain) (more : chain.length ≠ left) :
    ∀ d ∈ chain, threshold ≤ d.value → d.exploded = true := by
  cases h with
  | none => nofun
  | @ended _ before last length each fresh stop =>
    rw [List.forall_mem_append, List.forall_mem_singleton]
    constructor
    · intro d member _
      obtain ⟨_, die, _, rfl⟩ := each d member
      rfl
    · intro high
      rw [List.length_append, List.length_singleton] at more
      exact absurd (stop high) more

/-- Unless the cap is reached, all live dice that reach the threshold have exploded. -/
theorem Brings.complete (h : Brings sides .explosion threshold true cap dice chains)
    (more : chains.flatten.length ≠ cap) :
    ∀ d ∈ withChains .explosion dice chains, d.live = true → threshold ≤ d.value →
      d.exploded = true := by
  simp only [withChains, List.forall_mem_append]
  induction h with
  | nil cap => simp
  | @idle cap die dice chains unasked rest ih =>
    obtain ⟨old, new⟩ := ih more
    rw [List.zipWith_cons_cons, Die.behind_nil, List.flatten_cons, List.nil_append,
      List.forall_mem_cons]
    refine ⟨⟨?_, old⟩, new⟩
    intro live high
    by_contra unexploded
    exact unasked ⟨live, Bool.eq_false_iff.mpr unexploded, high⟩
  | @brings cap die dice chain chains asks chained rest ih =>
    have first := chained.length_le
    rw [List.flatten_cons, List.length_append] at more
    have others : chains.flatten.length ≠ cap - chain.length := by omega
    obtain ⟨old, new⟩ := ih others
    have short : chain.length ≠ cap := by
      intro full
      have none := Brings.length_le rest
      simp only [ite_true] at none
      omega
    rw [List.zipWith_cons_cons, List.flatten_cons, List.forall_mem_cons, List.forall_mem_append]
    refine ⟨⟨?_, old⟩, ?_, new⟩
    · intro _ _
      rw [Die.behind_of_ne_nil _ _ (chained.ne_nil (by omega))]
      rfl
    · intro d member _ high
      exact chained.complete short d member high

theorem Brings.marked_high (h : Brings sides .explosion threshold true cap dice chains)
    {place : Nat} {d : Die} (found : (withChains .explosion dice chains)[place]? = some d)
    (exploded : d.exploded = true) : dice[place]? = some d ∨ threshold ≤ d.value := by
  have new : ∀ d ∈ chains.flatten, d.exploded = true → threshold ≤ d.value := by
    apply h.forall_mem_new (P := fun d => d.exploded = true → threshold ≤ d.value)
    · intro die fresh marked
      have unmarked : die.exploded = false := fresh.not_marked .explosion
      rw [unmarked] at marked
      cases marked
    · intro die fresh asks _
      exact asks
  rw [withChains] at found
  by_cases inside : place < dice.length
  · rw [List.getElem?_append_left (by rw [h.length_old]; exact inside)] at found
    cases h.getElem?_old found with
    | inl same => exact .inl same
    | inr marked =>
      obtain ⟨die, _, asks, rfl⟩ := marked
      exact .inr asks.2.2
  · rw [List.getElem?_append_right (by rw [h.length_old]; omega)] at found
    exact .inr (new d (List.mem_of_getElem? found) exploded)

end All

/-- Each live die that has not exploded and reaches the threshold is marked and brings one die,
which is not marked. -/
structure ExplodedOnce (sides : Option Int) (threshold : Int) (bonus dice result : List Die) :
    Prop where
  whole : result =
    dice.map (fun d => if d.triggers threshold then d.markExploded else d) ++ bonus
  one : bonus.length = dice.countP (Die.triggers threshold)
  fresh : ∀ d ∈ bonus, d.Fresh sides .explosion

/-- No more new dice than the cap allows for. If they are fewer, no live die that reaches the
threshold is left that has not exploded. Only dice that reach it are newly marked. -/
structure ExplodedAll (threshold : Int) (cap : Nat) (bonus dice result : List Die) : Prop where
  capped : bonus.length ≤ cap
  complete : bonus.length = cap ∨
    ∀ d ∈ result, d.live = true → threshold ≤ d.value → d.exploded = true
  high : ∀ (place : Nat) (d : Die), result[place]? = some d → d.exploded = true →
    dice[place]? = some d ∨ threshold ≤ d.value

def Modifier.explosionCap (limits : Limits) (m : Modifier) : Nat :=
  if m.kind = .explodeAll then limits.maxExplosions.toNat else 1

/-- One explosion of a list of dice, at the threshold that is given or on the highest face. One die
is marked for each new die, and dice that have exploded before stay as they are. -/
structure Modifier.ExplodesAt (limits : Limits) (sides : Option Int) (m : Modifier)
    (threshold : Int) (chains : List (List Die)) (dice result : List Die) : Prop where
  value : m.value.or sides = some threshold
  brings : Brings sides .explosion threshold (decide (m.kind = .explodeAll))
    (m.explosionCap limits) dice chains
  whole : result = withChains .explosion dice chains
  marks : result.countP Die.exploded = dice.countP Die.exploded + chains.flatten.length
  untouched : ∀ (place : Nat) (die : Die), dice[place]? = some die → die.exploded = true →
    result[place]? = some die
  once : m.kind ≠ .explodeAll → ExplodedOnce sides threshold chains.flatten dice result
  all : m.kind = .explodeAll →
    ExplodedAll threshold limits.maxExplosions.toNat chains.flatten dice result

def Modifier.Explodes (limits : Limits) (sides : Option Int) (m : Modifier)
    (dice result : List Die) : Prop :=
  ∃ threshold chains, m.ExplodesAt limits sides threshold chains dice result

theorem Brings.explodes {limits : Limits} {m : Modifier} {dice : List Die}
    {chains : List (List Die)} (value : m.value.or sides = some threshold)
    (h : Brings sides .explosion threshold (decide (m.kind = .explodeAll))
      (m.explosionCap limits) dice chains) :
    m.ExplodesAt limits sides threshold chains dice (withChains .explosion dice chains) where
  value := value
  brings := h
  whole := rfl
  marks := h.countP_marked
  untouched := by
    intro place die found exploded
    exact h.untouched found (Die.not_asks_of_exploded exploded)
  once := by
    intro single
    rw [decide_eq_false single, Modifier.explosionCap, if_neg single] at h
    obtain ⟨marked, one, fresh⟩ := h.once
    exact ⟨congrArg (· ++ chains.flatten) marked, one, fresh⟩
  all := by
    intro all
    rw [decide_eq_true all, Modifier.explosionCap, if_pos all] at h
    refine ⟨h.length_le, ?_, fun place d found exploded => h.marked_high found exploded⟩
    by_cases full : chains.flatten.length = limits.maxExplosions.toNat
    · exact .inl full
    · exact .inr (h.complete full)

/-- Where every live die would explode, the explosions only stop at the cap. -/
theorem Modifier.ExplodesAt.full {limits : Limits} {m : Modifier} {chains : List (List Die)}
    {dice result : List Die} (h : m.ExplodesAt limits sides threshold chains dice result)
    (all : m.kind = .explodeAll) (asks : ∀ d ∈ result, d.live = true ∧ threshold ≤ d.value)
    {die : Die} (first : die ∈ dice) (unexploded : die.exploded = false) :
    result.length = dice.length + limits.maxExplosions.toNat := by
  have length : result.length = dice.length + chains.flatten.length := by
    rw [h.whole, h.brings.length_withChains]
  cases (h.all all).complete with
  | inl full => rw [length, full]
  | inr complete =>
    -- then all dice are marked, but no more marks are new than there are new dice
    have marked : result.countP Die.exploded = result.length := by
      rw [List.countP_eq_length]
      intro d member
      exact complete d member (asks d member).1 (asks d member).2
    have old : dice.countP Die.exploded = dice.length := by
      have marks := h.marks
      omega
    rw [List.countP_eq_length.mp old die first] at unexploded
    cases unexploded

theorem Modifier.run_explodes (limits : Limits) (sides : Option Int) {m : Modifier}
    (stage : m.kind.stage = .explosion) (valued : (m.value.or sides).isSome = true)
    (dice : List Die) :
    Settles (m.run limits sides dice : Rolling σ (List Die))
      fun _ result => m.Explodes limits sides dice result := by
  obtain ⟨threshold, value⟩ := Option.isSome_iff_exists.mp valued
  have finish (walked : List Die × List Die) (walks : Chained sides .explosion threshold
      (decide (m.kind = .explodeAll)) (m.explosionCap limits) dice walked) :
      m.Explodes limits sides dice (walked.1 ++ walked.2) := by
    obtain ⟨chains, brings, eq⟩ := walks
    subst eq
    exact ⟨threshold, chains, brings.explodes value⟩
  unfold run explode
  simp only [stage, value]
  unfold explosionCap at finish
  by_cases all : m.kind = .explodeAll
  · rw [decide_eq_true all, if_pos all] at finish
    rw [if_pos all]
    apply (explodeChains_settles threshold limits.maxExplosions.toNat dice).bind
    intro _ walked walks
    exact .pure (finish walked walks)
  · rw [decide_eq_false all, if_neg all] at finish
    rw [if_neg all]
    apply (explodeOnce_settles threshold dice).bind
    intro _ walked walks
    exact .pure (finish walked walks)

/-- Without a threshold, which fudge dice may lack, an explosion fails or does nothing. -/
theorem Modifier.run_explosion (limits : Limits) (sides : Option Int) {m : Modifier}
    (stage : m.kind.stage = .explosion) (dice : List Die) :
    Yields (m.run limits sides dice : Rolling σ (List Die))
      fun result => result = dice ∨ m.Explodes limits sides dice result := by
  by_cases valued : (m.value.or sides).isSome = true
  · apply (m.run_explodes limits sides stage valued dice).yields.mono
    intro result explodes
    exact .inr explodes
  · rw [Bool.not_eq_true, Option.isSome_eq_false_iff, Option.isNone_iff_eq_none] at valued
    unfold run explode
    simp only [stage, valued]
    split
    · exact .throw
    · exact .pure (.inl rfl)

/-- The explosion stage either stops where the source has no answer, or each of its modifiers lets
the dice explode that may, as far as its cap allows for. -/
theorem Stage.explosions_complete_or_capped (limits : Limits) (t : DiceTerm)
    (valued : ∀ m ∈ Stage.explosion.select t.modifiers, (m.value.or t.sides).isSome = true)
    (dice : List Die) (s : σ) :
    Ending (Stage.explosion.run limits t dice) s fun draws result =>
      drawsOf t.sides result = drawsOf t.sides dice ++ draws ∧
        Passes (Modifier.Explodes limits t.sides) (Stage.explosion.select t.modifiers) dice
          result := by
  apply (Stage.run_settles (σ := σ) limits t .explosion _ dice).ending s
  intro m member
  exact m.run_explodes limits t.sides (kind_of_mem_select member) (valued m member)

/-- The first die explodes by the first modifier and is left alone by the second one, which runs out
of explosions with the last six. A dropped die never explodes. -/
theorem shared_explosions_capped :
    let t : DiceTerm := ⟨4, some 6, [⟨.explode, some 5⟩, ⟨.explodeAll, some 4⟩], none, "4d6 e5 ie4"⟩
    let dice : List Die := [⟨6, .initial, false, false, false, .highest⟩,
      ⟨4, .initial, false, false, false, .none⟩, ⟨5, .initial, true, false, false, .none⟩,
      ⟨2, .initial, false, false, false, .none⟩]
    ∃ result last,
      (Stage.explosion.run { maxExplosions := 3 } t dice).run (Script.ofList [5, 4, 3, 6] false) =
        (.ok result, last) ∧
      result.map Die.value = [6, 4, 5, 2, 5, 4, 3, 6] ∧
      result.map Die.exploded = [true, true, false, false, true, true, false, false] ∧
      Passes (Modifier.Explodes { maxExplosions := 3 } t.sides)
        (Stage.explosion.select t.modifiers) dice result := by
  intro t dice
  have valued : ∀ m ∈ Stage.explosion.select t.modifiers, (m.value.or t.sides).isSome = true := by
    decide
  cases Stage.explosions_complete_or_capped { maxExplosions := 3 } t valued dice
      (Script.ofList [5, 4, 3, 6] false) with
  | result ran answers holds =>
    refine ⟨_, _, ran, ?_, ?_, holds.2⟩
    · cases ran
      decide
    · cases ran
      decide
  | refused ran answers refusal => cases ran

end DiceNotation
