import DiceNotation.Proofs.Dice.Completion
import DiceNotation.Proofs.Dice.Replay
import DiceNotation.Proofs.Roll.Ending

/-!
Dice that bring dice. A reroll and an explosion are alike: a live die whose value asks for it is
marked and brings a chain of new dice, each of which may ask for the next one. All the chains stand
behind the old dice, in the order of the dice that brought them.
-/
namespace DiceNotation

def Origin.Asks (origin : Origin) (threshold value : Int) : Prop :=
  match origin with
  | .initial => False
  | .reroll => value ≤ threshold
  | .explosion => threshold ≤ value

def Origin.mark (origin : Origin) (die : Die) : Die :=
  match origin with
  | .initial => die
  | .reroll => die.markRerolled
  | .explosion => die.markExploded

def Origin.marked (origin : Origin) (die : Die) : Bool :=
  match origin with
  | .initial => false
  | .reroll => die.rerolled
  | .explosion => die.exploded

/-- The die is live, has brought no other die of the origin yet and asks for one. -/
def Die.Asks (origin : Origin) (threshold : Int) (die : Die) : Prop :=
  die.live = true ∧ origin.marked die = false ∧ origin.Asks threshold die.value

def Die.ready (origin : Origin) (die : Die) : Bool := die.live && !origin.marked die

def extremeShown (sides : Option Int) (value : Int) : Extreme :=
  match sides with
  | none => .none
  | some sides => extremeOf sides value

def Die.Fresh (sides : Option Int) (origin : Origin) (die : Die) : Prop :=
  die = { value := die.value, origin := origin, extreme := extremeShown sides die.value }

section Chains

variable (sides : Option Int) (origin : Origin) (threshold : Int)

/-- At most so many new dice, as many as are allowed for if every value asks for another die. All
but the last ask for another one and are marked; the last does not ask, or it is the last that is
allowed, and nothing is marked on it. -/
inductive Chain : Nat → List Die → Prop where
  | none : Chain 0 []
  | ended {cap : Nat} {before : List Die} {last : Die} (length : before.length + 1 ≤ cap)
      (each : ∀ d ∈ before, origin.Asks threshold d.value ∧
        ∃ die : Die, die.Fresh sides origin ∧ d = origin.mark die)
      (fresh : last.Fresh sides origin)
      (stop : origin.Asks threshold last.value → before.length + 1 = cap) :
      Chain cap (before ++ [last])

/-- The chains of the dice of a list, one for each die. A die that does not ask for any brings an
empty one. The chains have the same cap each, or they share one. -/
inductive Brings (shared : Bool) : Nat → List Die → List (List Die) → Prop where
  | nil (cap : Nat) : Brings shared cap [] []
  | idle {cap : Nat} {die : Die} {dice : List Die} {chains : List (List Die)}
      (unasked : ¬ die.Asks origin threshold) (rest : Brings shared cap dice chains) :
      Brings shared cap (die :: dice) ([] :: chains)
  | brings {cap : Nat} {die : Die} {dice chain : List Die} {chains : List (List Die)}
      (asks : die.Asks origin threshold) (chained : Chain sides origin threshold cap chain)
      (rest : Brings shared (if shared then cap - chain.length else cap) dice chains) :
      Brings shared cap (die :: dice) (chain :: chains)

end Chains

def Die.behind (origin : Origin) (die : Die) (chain : List Die) : Die :=
  if chain = [] then die else origin.mark die

/-- The dice with their marks, and all chains behind them. -/
def withChains (origin : Origin) (dice : List Die) (chains : List (List Die)) : List Die :=
  List.zipWith (Die.behind origin) dice chains ++ chains.flatten

variable {σ : Type} [Source σ] {sides : Option Int} {origin : Origin} {threshold : Int}

theorem Die.live_iff {die : Die} :
    die.live = true ↔ die.dropped = false ∧ die.rerolled = false := by
  simp [Die.live]

theorem Die.asks_reroll {die : Die} :
    die.Asks .reroll threshold ↔ die.live = true ∧ die.value ≤ threshold := by
  constructor
  · intro asks
    exact ⟨asks.1, asks.2.2⟩
  · intro low
    exact ⟨low.1, (live_iff.mp low.1).2, low.2⟩

theorem Die.asks_explosion {die : Die} :
    die.Asks .explosion threshold ↔ die.triggers threshold = true := by
  simp [Die.Asks, Origin.marked, Origin.Asks, Die.triggers, and_assoc]

@[simp] theorem Die.behind_nil (origin : Origin) (die : Die) : die.behind origin [] = die := rfl

theorem Die.behind_of_ne_nil (origin : Origin) (die : Die) {chain : List Die} (h : chain ≠ []) :
    die.behind origin chain = origin.mark die := by
  rw [Die.behind, if_neg h]

@[simp] theorem Origin.value_mark (origin : Origin) (die : Die) :
    (origin.mark die).value = die.value := by
  cases origin <;> rfl

@[simp] theorem Origin.origin_mark (origin : Origin) (die : Die) :
    (origin.mark die).origin = die.origin := by
  cases origin <;> rfl

namespace Chain

variable {cap : Nat} {die : Die} {rest chain : List Die}

theorem ne_nil (h : Chain sides origin threshold cap chain) (more : 0 < cap) : chain ≠ [] := by
  cases h with
  | none => omega
  | ended length each fresh stop => simp

theorem single (fresh : die.Fresh sides origin)
    (stop : origin.Asks threshold die.value → cap = 0) :
    Chain sides origin threshold (cap + 1) [die] := by
  rw [← List.nil_append [die]]
  apply Chain.ended
  · simp
  · simp
  · exact fresh
  · intro asks
    rw [stop asks]
    rfl

theorem cons (fresh : die.Fresh sides origin) (asks : origin.Asks threshold die.value)
    (chain : Chain sides origin threshold cap rest) (more : 0 < cap) :
    Chain sides origin threshold (cap + 1) (origin.mark die :: rest) := by
  cases chain with
  | none => omega
  | @ended _ before last length each freshLast stop =>
    have all : ∀ d ∈ origin.mark die :: before, origin.Asks threshold d.value ∧
        ∃ die : Die, die.Fresh sides origin ∧ d = origin.mark die := by
      rw [List.forall_mem_cons, Origin.value_mark]
      exact ⟨⟨asks, die, fresh, rfl⟩, each⟩
    rw [← List.cons_append]
    apply Chain.ended _ all freshLast
    · intro asksLast
      rw [List.length_cons, stop asksLast]
    · rw [List.length_cons]
      omega

end Chain

theorem rollDie_settles (origin : Origin) :
    Settles (rollDie sides origin : Rolling σ Die) fun _ die => die.Fresh sides origin := by
  unfold rollDie
  cases sides with
  | none =>
    apply (Settles.drawFace (Q := fun _ _ => True) fun _ => trivial).bind
    intro _ face _
    exact .pure rfl
  | some n =>
    apply (Settles.drawFace (Q := fun _ _ => True) fun _ => trivial).bind
    intro _ face _
    exact .pure rfl

theorem rollMany_settles (n : Nat) :
    Settles (rollMany sides n : Rolling σ (List Die))
      fun _ dice => dice.length = n ∧ ∀ d ∈ dice, d.Fresh sides .initial := by
  induction n with
  | zero => exact .pure ⟨rfl, nofun⟩
  | succ n ih =>
    apply (rollDie_settles .initial).bind
    intro _ die fresh
    apply ih.bind
    intro _ rest spec
    obtain ⟨length, all⟩ := spec
    exact .pure ⟨congrArg Nat.succ length, List.forall_mem_cons.mpr ⟨fresh, all⟩⟩

theorem rerollChain_settles (threshold : Int) (cap : Nat) :
    Settles (rerollChain sides threshold cap : Rolling σ (List Die))
      fun _ chain => Chain sides .reroll threshold cap chain := by
  induction cap with
  | zero => exact .pure .none
  | succ cap ih =>
    apply (rollDie_settles .reroll).bind
    intro _ die fresh
    split
    · rename_i high
      apply Settles.pure
      apply Chain.single fresh
      intro asks
      have low : die.value ≤ threshold := asks
      omega
    · rename_i low
      apply ih.bind
      intro _ rest chain
      apply Settles.pure
      apply Chain.cons fresh _ chain
      · omega
      · have : die.value ≤ threshold := by omega
        exact this

theorem explosionChain_settles (threshold : Int) (left : Nat) :
    Settles (explosionChain sides threshold left : Rolling σ (List Die × Nat))
      fun _ result => Chain sides .explosion threshold left result.1 ∧
        result.2 = left - result.1.length := by
  induction left with
  | zero => exact .pure ⟨.none, rfl⟩
  | succ left ih =>
    apply (rollDie_settles .explosion).bind
    intro _ bonus fresh
    dsimp only
    split
    · rename_i high
      apply ih.bind
      intro _ result spec
      apply Settles.pure
      constructor
      · exact Chain.cons fresh high.1 spec.1 (by omega)
      · rw [List.length_cons, spec.2]
        omega
    · rename_i low
      apply Settles.pure
      constructor
      · apply Chain.single fresh
        intro asks
        have high : threshold ≤ bonus.value := asks
        omega
      · simp

def Chained (sides : Option Int) (origin : Origin) (threshold : Int) (shared : Bool) (cap : Nat)
    (dice : List Die) (result : List Die × List Die) : Prop :=
  ∃ chains, Brings sides origin threshold shared cap dice chains ∧
    result = (List.zipWith (Die.behind origin) dice chains, chains.flatten)

theorem Chained.nil (shared : Bool) (cap : Nat) :
    Chained sides origin threshold shared cap [] ([], []) :=
  ⟨[], .nil cap, rfl⟩

theorem Chained.idle {shared : Bool} {cap : Nat} {die : Die} {dice marked added : List Die}
    (h : Chained sides origin threshold shared cap dice (marked, added))
    (unasked : ¬ die.Asks origin threshold) :
    Chained sides origin threshold shared cap (die :: dice) (die :: marked, added) := by
  obtain ⟨chains, brings, eq⟩ := h
  cases eq
  exact ⟨[] :: chains, .idle unasked brings, rfl⟩

theorem Chained.brings {shared : Bool} {cap : Nat} {die : Die} {dice chain marked added : List Die}
    (h : Chained sides origin threshold shared (if shared then cap - chain.length else cap) dice
      (marked, added))
    (asks : die.Asks origin threshold) (chained : Chain sides origin threshold cap chain) :
    Chained sides origin threshold shared cap (die :: dice)
      (die.behind origin chain :: marked, chain ++ added) := by
  obtain ⟨chains, brings, eq⟩ := h
  cases eq
  exact ⟨chain :: chains, .brings asks chained brings, rfl⟩

theorem replaceLow_settles (threshold : Int) (cap : Nat) (dice : List Die) :
    Settles (replaceLow sides threshold cap dice : Rolling σ (List Die × List Die))
      fun _ result => Chained sides .reroll threshold false cap dice result := by
  induction dice with
  | nil => exact .pure (.nil false cap)
  | cons die dice ih =>
    unfold replaceLow
    split
    · rename_i low
      apply (rerollChain_settles threshold cap).bind
      intro _ chain chained
      apply ih.bind
      intro _ result walks
      exact .pure (walks.brings (Die.asks_reroll.mpr low) chained)
    · rename_i high
      apply ih.bind
      intro _ result walks
      exact .pure (walks.idle (mt Die.asks_reroll.mp high))

theorem explodeOnce_settles (threshold : Int) (dice : List Die) :
    Settles (explodeOnce sides threshold dice : Rolling σ (List Die × List Die))
      fun _ result => Chained sides .explosion threshold false 1 dice result := by
  induction dice with
  | nil => exact .pure (.nil false 1)
  | cons die dice ih =>
    unfold explodeOnce
    split
    · rename_i triggers
      apply (rollDie_settles .explosion).bind
      intro _ bonus fresh
      apply ih.bind
      intro _ result walks
      have chained : Chain sides .explosion threshold 1 [bonus] := Chain.single fresh fun _ => rfl
      exact .pure (walks.brings (Die.asks_explosion.mpr triggers) chained)
    · rename_i idle
      apply ih.bind
      intro _ result walks
      exact .pure (walks.idle (mt Die.asks_explosion.mp idle))

theorem explodeChains_settles (threshold : Int) (left : Nat) (dice : List Die) :
    Settles (explodeChains sides threshold left dice : Rolling σ (List Die × List Die))
      fun _ result => Chained sides .explosion threshold true left dice result := by
  induction dice generalizing left with
  | nil => exact .pure (.nil true left)
  | cons die dice ih =>
    unfold explodeChains
    split
    · rename_i triggers
      apply (explosionChain_settles threshold left).bind
      intro _ chain spec
      obtain ⟨chained, rest⟩ := spec
      apply (ih chain.2).bind
      intro _ result walks
      rw [rest] at walks
      have walked := walks.brings (Die.asks_explosion.mpr triggers.1) chained
      rw [Die.behind_of_ne_nil _ _ (chained.ne_nil (by omega))] at walked
      exact .pure walked
    · rename_i idle
      apply (ih left).bind
      intro _ result walks
      apply Settles.pure
      by_cases triggers : die.triggers threshold = true
      · -- the die asks for a chain, but nothing is left of the shared cap
        have used : left = 0 := by
          by_contra some
          exact idle ⟨triggers, some⟩
        subst used
        exact walks.brings (Die.asks_explosion.mpr triggers) .none
      · exact walks.idle (mt Die.asks_explosion.mp triggers)

section Origins

variable {die : Die}

theorem Die.Fresh.not_marked (h : die.Fresh sides origin) (other : Origin) :
    other.marked die = false := by
  rw [h]
  cases other <;> rfl

theorem Die.Fresh.live (h : die.Fresh sides origin) : die.live = true := by
  rw [h]
  rfl

theorem Origin.marked_mark (h : origin ≠ .initial) (die : Die) :
    origin.marked (origin.mark die) = true := by
  cases origin with
  | initial => exact absurd rfl h
  | reroll => rfl
  | explosion => rfl

theorem Origin.marked_mark_of_ne {other : Origin} (h : other ≠ origin) (die : Die) :
    other.marked (origin.mark die) = other.marked die := by
  cases origin <;> cases other <;> first | rfl | exact absurd rfl h

theorem Die.Fresh.ready (h : die.Fresh sides origin) (other : Origin) :
    die.ready other = true := by
  rw [Die.ready, h.live, h.not_marked]
  rfl

theorem Origin.not_ready_mark (h : origin ≠ .initial) (die : Die) :
    (origin.mark die).ready origin = false := by
  rw [Die.ready, marked_mark h, Bool.not_true, Bool.and_false]

theorem Die.Asks.ready (h : die.Asks origin threshold) : die.ready origin = true := by
  rw [Die.ready, h.1, h.2.1]
  rfl

theorem Die.Asks.not_initial (h : die.Asks origin threshold) : origin ≠ .initial := by
  intro initial
  subst initial
  exact h.2.2

end Origins

namespace Chain

variable {cap : Nat} {chain : List Die}

theorem length_le (h : Chain sides origin threshold cap chain) : chain.length ≤ cap := by
  cases h with
  | none => exact Nat.le_refl 0
  | ended length each fresh stop => simpa using length

theorem forall_mem {P : Die → Prop} (h : Chain sides origin threshold cap chain)
    (fresh : ∀ die : Die, die.Fresh sides origin → P die)
    (marked : ∀ die : Die, die.Fresh sides origin → origin.Asks threshold die.value →
      P (origin.mark die)) : ∀ d ∈ chain, P d := by
  cases h with
  | none => nofun
  | ended length each freshLast stop =>
    rw [List.forall_mem_append, List.forall_mem_singleton]
    refine ⟨?_, fresh _ freshLast⟩
    intro d member
    obtain ⟨asks, die, freshDie, rfl⟩ := each d member
    rw [Origin.value_mark] at asks
    exact marked die freshDie asks

theorem countP_marked (h : Chain sides origin threshold cap chain)
    (notInitial : origin ≠ .initial) :
    chain.countP origin.marked = chain.length - 1 := by
  cases h with
  | none => rfl
  | @ended _ before last length each fresh stop =>
    have all : ∀ d ∈ before, origin.marked d = true := by
      intro d member
      obtain ⟨_, die, _, rfl⟩ := each d member
      exact Origin.marked_mark notInitial die
    rw [List.countP_append, List.countP_eq_length.mpr all, List.countP_singleton,
      fresh.not_marked origin]
    simp

theorem countP_ready (h : Chain sides origin threshold cap chain) (notInitial : origin ≠ .initial)
    (some : chain ≠ []) : chain.countP (Die.ready origin) = 1 := by
  cases h with
  | none => exact absurd rfl some
  | @ended _ before last length each fresh stop =>
    have marked : ∀ d ∈ before, ¬ d.ready origin = true := by
      intro d member
      obtain ⟨_, die, _, rfl⟩ := each d member
      exact Bool.eq_false_iff.mp (Origin.not_ready_mark notInitial die)
    rw [List.countP_append, List.countP_eq_zero.mpr marked, List.countP_singleton, fresh.ready]
    rfl

end Chain

namespace Brings

variable {shared : Bool} {cap : Nat} {dice : List Die} {chains : List (List Die)}

theorem forall_mem_new {P : Die → Prop} (h : Brings sides origin threshold shared cap dice chains)
    (fresh : ∀ die : Die, die.Fresh sides origin → P die)
    (marked : ∀ die : Die, die.Fresh sides origin → origin.Asks threshold die.value →
      P (origin.mark die)) :
    ∀ d ∈ chains.flatten, P d := by
  induction h with
  | nil cap => nofun
  | idle unasked rest ih => exact ih
  | brings asks chained rest ih =>
    rw [List.flatten_cons, List.forall_mem_append]
    exact ⟨chained.forall_mem fresh marked, ih⟩

theorem map_old {α : Type} {f : Die → α} (h : Brings sides origin threshold shared cap dice chains)
    (keeps : ∀ die, f (origin.mark die) = f die) :
    (List.zipWith (Die.behind origin) dice chains).map f = dice.map f := by
  induction h with
  | nil cap => rfl
  | idle unasked rest ih =>
    rw [List.zipWith_cons_cons, List.map_cons, ih, Die.behind_nil, List.map_cons]
  | @brings cap die dice chain chains asks chained rest ih =>
    have same : f (die.behind origin chain) = f die := by
      unfold Die.behind
      split
      · rfl
      · exact keeps die
    rw [List.zipWith_cons_cons, List.map_cons, ih, same, List.map_cons]

theorem length_old (h : Brings sides origin threshold shared cap dice chains) :
    (List.zipWith (Die.behind origin) dice chains).length = dice.length := by
  simpa using congrArg List.length (h.map_old (f := fun _ => ()) fun _ => rfl)

theorem length_withChains (h : Brings sides origin threshold shared cap dice chains) :
    (withChains origin dice chains).length = dice.length + chains.flatten.length := by
  rw [withChains, List.length_append, h.length_old]

/-- Even a shared cap allows for no more than so many new dice for each old one. -/
theorem length_flatten_le (h : Brings sides origin threshold shared cap dice chains) :
    chains.flatten.length ≤ dice.length * cap := by
  induction h with
  | nil cap => exact Nat.zero_le _
  | idle unasked rest ih =>
    rw [List.flatten_cons, List.nil_append, List.length_cons, Nat.succ_mul]
    omega
  | @brings cap die dice chain chains asks chained rest ih =>
    have first := chained.length_le
    have others : chains.flatten.length ≤ dice.length * cap := by
      apply ih.trans
      apply Nat.mul_le_mul_left
      split
      · exact Nat.sub_le _ _
      · exact Nat.le_refl cap
    rw [List.flatten_cons, List.length_append, List.length_cons, Nat.succ_mul]
    omega

theorem getElem?_old (h : Brings sides origin threshold shared cap dice chains) {place : Nat}
    {d : Die} (found : (List.zipWith (Die.behind origin) dice chains)[place]? = some d) :
    dice[place]? = some d ∨
      ∃ die : Die, dice[place]? = some die ∧ die.Asks origin threshold ∧ d = origin.mark die := by
  induction h generalizing place with
  | nil cap => simp at found
  | idle unasked rest ih =>
    cases place with
    | zero => exact .inl found
    | succ place => exact ih found
  | @brings cap die dice chain chains asks chained rest ih =>
    cases place with
    | succ place => exact ih found
    | zero =>
      have here : die.behind origin chain = d := by simpa using found
      unfold Die.behind at here
      split at here
      · exact .inl (congrArg some here)
      · exact .inr ⟨die, rfl, asks, here.symm⟩

theorem forall_mem_old {P : Die → Prop} (h : Brings sides origin threshold shared cap dice chains)
    (old : ∀ d ∈ dice, P d)
    (marked : ∀ die : Die, P die → die.Asks origin threshold → P (origin.mark die)) :
    ∀ d ∈ List.zipWith (Die.behind origin) dice chains, P d := by
  intro d member
  obtain ⟨place, found⟩ := List.mem_iff_getElem?.mp member
  cases h.getElem?_old found with
  | inl same => exact old d (List.mem_of_getElem? same)
  | inr changed =>
    obtain ⟨die, before, asks, rfl⟩ := changed
    exact marked die (old die (List.mem_of_getElem? before)) asks

/-- What holds of the dice, of a die that is marked and of a new die holds of all dice then. -/
theorem forall_mem_withChains {P : Die → Prop}
    (h : Brings sides origin threshold shared cap dice chains) (old : ∀ d ∈ dice, P d)
    (marked : ∀ die : Die, P die → die.Asks origin threshold → P (origin.mark die))
    (new : ∀ die : Die, die.Fresh sides origin → P die ∧ P (origin.mark die)) :
    ∀ d ∈ withChains origin dice chains, P d := by
  rw [withChains, List.forall_mem_append]
  constructor
  · exact h.forall_mem_old old marked
  · exact h.forall_mem_new (fun die fresh => (new die fresh).1) fun die fresh _ => (new die fresh).2

theorem untouched (h : Brings sides origin threshold shared cap dice chains) {place : Nat}
    {die : Die} (found : dice[place]? = some die) (unasked : ¬ die.Asks origin threshold) :
    (withChains origin dice chains)[place]? = some die := by
  have inside : place < dice.length := (List.getElem?_eq_some_iff.mp found).1
  rw [← h.length_old] at inside
  rw [withChains, List.getElem?_append_left inside, List.getElem?_eq_getElem inside]
  cases h.getElem?_old (List.getElem?_eq_getElem inside) with
  | inl same => rw [← same, found]
  | inr changed =>
    obtain ⟨die', found', asks, _⟩ := changed
    rw [found] at found'
    cases found'
    exact absurd asks unasked

theorem of_mem_zip (h : Brings sides origin threshold false cap dice chains) {die : Die}
    {chain : List Die} (member : (die, chain) ∈ dice.zip chains) :
    ¬ die.Asks origin threshold ∧ chain = [] ∨
      die.Asks origin threshold ∧ Chain sides origin threshold cap chain := by
  induction h with
  | nil cap => cases member
  | idle unasked rest ih =>
    cases member with
    | head => exact .inl ⟨unasked, rfl⟩
    | tail _ later => exact ih later
  | brings asks chained rest ih =>
    cases member with
    | head => exact .inr ⟨asks, chained⟩
    | tail _ later => exact ih later

theorem exists_zip (h : Brings sides origin threshold shared cap dice chains) {d : Die}
    (member : d ∈ withChains origin dice chains) : ∃ die chain, (die, chain) ∈ dice.zip chains ∧
      (d = die.behind origin chain ∨ d ∈ chain) := by
  rw [withChains, List.mem_append] at member
  induction h with
  | nil cap => cases member <;> contradiction
  | @idle cap die dice chains unasked rest ih =>
    rw [List.zipWith_cons_cons, List.mem_cons, List.flatten_cons, List.nil_append, or_assoc]
      at member
    cases member with
    | inl same => exact ⟨die, [], List.mem_cons_self, .inl same⟩
    | inr later =>
      obtain ⟨other, chain, pair, place⟩ := ih later
      exact ⟨other, chain, List.mem_cons_of_mem _ pair, place⟩
  | @brings cap die dice chain chains asks chained rest ih =>
    rw [List.zipWith_cons_cons, List.mem_cons, List.flatten_cons, List.mem_append, or_or_or_comm]
      at member
    cases member with
    | inl here => exact ⟨die, chain, List.mem_cons_self, here⟩
    | inr later =>
      obtain ⟨other, behind, pair, place⟩ := ih later
      exact ⟨other, behind, List.mem_cons_of_mem _ pair, place⟩

theorem withChains_of_zero (h : Brings sides origin threshold shared cap dice chains)
    (zero : cap = 0) : withChains origin dice chains = dice := by
  rw [withChains]
  induction h with
  | nil cap => rfl
  | idle unasked rest ih =>
    rw [List.zipWith_cons_cons, Die.behind_nil, List.flatten_cons, List.nil_append,
      List.cons_append, ih zero]
  | brings asks chained rest ih =>
    subst zero
    cases chained with
    | none =>
      rw [List.zipWith_cons_cons, Die.behind_nil, List.flatten_cons, List.nil_append,
        List.cons_append, ih (by simp)]
    | ended length each fresh stop => omega

theorem countP_marked (h : Brings sides origin threshold shared cap dice chains) :
    (withChains origin dice chains).countP origin.marked =
      dice.countP origin.marked + chains.flatten.length := by
  rw [withChains, List.countP_append]
  induction h with
  | nil cap => rfl
  | idle unasked rest ih =>
    rw [List.zipWith_cons_cons, Die.behind_nil, List.flatten_cons, List.nil_append,
      List.countP_cons, List.countP_cons]
    omega
  | @brings cap die dice chain chains asks chained rest ih =>
    rw [List.zipWith_cons_cons, List.flatten_cons, List.countP_append, List.length_append,
      List.countP_cons, List.countP_cons, chained.countP_marked asks.not_initial, asks.2.1]
    by_cases empty : chain = []
    · subst empty
      rw [Die.behind_nil, asks.2.1, List.length_nil]
      omega
    · have some := List.length_pos_iff.mpr empty
      rw [Die.behind_of_ne_nil _ _ empty, Origin.marked_mark asks.not_initial]
      simp only [Bool.false_eq_true, ite_true, ite_false]
      omega

theorem countP_ready (h : Brings sides origin threshold shared cap dice chains) :
    (withChains origin dice chains).countP (Die.ready origin) =
      dice.countP (Die.ready origin) := by
  rw [withChains, List.countP_append]
  induction h with
  | nil cap => rfl
  | idle unasked rest ih =>
    rw [List.zipWith_cons_cons, Die.behind_nil, List.flatten_cons, List.nil_append,
      List.countP_cons, List.countP_cons]
    omega
  | @brings cap die dice chain chains asks chained rest ih =>
    rw [List.zipWith_cons_cons, List.flatten_cons, List.countP_append, List.countP_cons,
      List.countP_cons]
    by_cases empty : chain = []
    · subst empty
      rw [Die.behind_nil, List.countP_nil]
      omega
    · rw [Die.behind_of_ne_nil _ _ empty, Origin.not_ready_mark asks.not_initial,
        chained.countP_ready asks.not_initial empty, asks.ready]
      simp only [Bool.false_eq_true, ite_true, ite_false]
      omega

theorem countP_marked_of_ne (h : Brings sides origin threshold shared cap dice chains)
    {other : Origin} (different : other ≠ origin) :
    (withChains origin dice chains).countP other.marked = dice.countP other.marked := by
  have old := congrArg (List.countP id)
    (h.map_old (f := other.marked) (Origin.marked_mark_of_ne different))
  rw [List.countP_map, List.countP_map, Function.id_comp] at old
  have unmarked : ∀ d ∈ chains.flatten, ¬ other.marked d = true := by
    apply h.forall_mem_new (P := fun d => ¬ other.marked d = true)
    · intro die fresh
      rw [fresh.not_marked]
      exact Bool.false_ne_true
    · intro die fresh _
      rw [Origin.marked_mark_of_ne different, fresh.not_marked]
      exact Bool.false_ne_true
  rw [withChains, List.countP_append, old, List.countP_eq_zero.mpr unmarked, Nat.add_zero]

theorem map_origin (h : Brings sides origin threshold shared cap dice chains) :
    (withChains origin dice chains).map Die.origin =
      dice.map Die.origin ++ List.replicate chains.flatten.length origin := by
  have new : ∀ d ∈ chains.flatten, d.origin = origin := by
    apply h.forall_mem_new (P := fun d => d.origin = origin)
    · intro die fresh
      rw [fresh]
    · intro die fresh _
      rw [Origin.origin_mark, fresh]
  rw [withChains, List.map_append, h.map_old (Origin.origin_mark origin)]
  congr 1
  rw [List.eq_replicate_iff]
  constructor
  · exact List.length_map _
  · intro found member
    obtain ⟨die, inside, rfl⟩ := List.mem_map.mp member
    exact new die inside

end Brings

inductive Passes (step : Modifier → List Die → List Die → Prop) :
    List Modifier → List Die → List Die → Prop where
  | nil (dice : List Die) : Passes step [] dice dice
  | cons {m : Modifier} {modifiers : List Modifier} {first next last : List Die}
      (pass : step m first next) (rest : Passes step modifiers next last) :
      Passes step (m :: modifiers) first last

theorem Passes.same {step : Modifier → List Die → List Die → Prop} {modifiers : List Modifier}
    {first last : List Die} {α : Type} {f : List Die → α} (h : Passes step modifiers first last)
    (keeps : ∀ m dice result, step m dice result → f result = f dice) : f last = f first := by
  induction h with
  | nil dice => rfl
  | cons pass rest ih => rw [ih, keeps _ _ _ pass]

theorem Stage.kind_of_mem_select {stage : Stage} {m : Modifier} {modifiers : List Modifier}
    (h : m ∈ stage.select modifiers) : m.kind.stage = stage := by
  have kept := (List.mem_filter.mp (mem_of_mem_lastOfEach h)).2
  exact of_decide_eq_true kept

theorem foldlM_run_settles (limits : Limits) {step : Modifier → List Die → List Die → Prop}
    {modifiers : List Modifier} (each : ∀ m ∈ modifiers, ∀ dice,
      Settles (m.run limits sides dice : Rolling σ (List Die)) fun _ result => step m dice result)
    (dice : List Die) :
    Settles (modifiers.foldlM (Modifier.run limits sides) dice : Rolling σ (List Die))
      fun _ result => Passes step modifiers dice result := by
  induction modifiers generalizing dice with
  | nil => exact .pure (.nil dice)
  | cons m modifiers ih =>
    rw [List.forall_mem_cons] at each
    rw [List.foldlM_cons]
    apply (each.1 dice).bind
    intro _ next pass
    apply (ih each.2 next).mono
    intro _ result rest
    exact .cons pass rest

/-- A stage whose modifiers each make their step puts the dice that it draws behind those that it
found. -/
theorem Stage.run_settles (limits : Limits) (t : DiceTerm) (stage : Stage)
    {step : Modifier → List Die → List Die → Prop}
    (each : ∀ m ∈ stage.select t.modifiers, ∀ dice,
      Settles (m.run limits t.sides dice : Rolling σ (List Die)) fun _ result => step m dice result)
    (dice : List Die) :
    Settles (stage.run limits t dice : Rolling σ (List Die)) fun draws result =>
      Grown t.sides dice draws result ∧ Passes step (stage.select t.modifiers) dice result :=
  (foldlM_run_settles limits each dice).and_follows
    (foldlM_run_follows limits t.sides (stage.select t.modifiers) dice)

end DiceNotation
