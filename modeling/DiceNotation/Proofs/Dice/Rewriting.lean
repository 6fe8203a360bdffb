import DiceNotation.Proofs.Dice.OrderStatistics

/-!
Modifiers that may be written in another way. A modifier that a later one overrides may be left out,
modifiers of different stages may change places, and so may drops from both ends.
-/
namespace DiceNotation

section BothEnds

variable {highest : Bool} {dice : List Die}

theorem dropPlaces_dropPlaces (first second : Finset Nat) (dice : List Die) :
    dropPlaces second (dropPlaces first dice) = dropPlaces (first ∪ second) dice := by
  apply List.ext_getElem?
  intro place
  simp only [getElem?_dropPlaces, Option.map_map]
  congr 1
  funext die
  by_cases inFirst : place ∈ first <;> by_cases inSecond : place ∈ second <;>
    simp [inFirst, inSecond, Die.markDropped]

theorem sooner_dropPlaces {dropped : Finset Nat} {i j : Nat} :
    Sooner highest (dropPlaces dropped dice) i j ↔ Sooner highest dice i j := by
  have value (place : Nat) (die : Die) :
      (if place ∈ dropped then die.markDropped else die).value = die.value := by
    split <;> rfl
  simp only [Sooner, getElem?_dropPlaces, Option.mem_def, Option.map_eq_some_iff,
    forall_exists_index, and_imp, forall_apply_eq_imp_iff₂, value]

/-- Some dice are dropped from one end and some from the other. What is left lies between them, and
no die of the one end lies beyond a die of the other end. -/
structure BothEnds (highest : Bool) (dice : List Die) (first second : Finset Nat) : Prop where
  live : first ∪ second ⊆ livePlaces dice
  sooner : ∀ i ∈ first, ∀ j ∈ livePlaces dice \ (first ∪ second), Sooner highest dice i j
  later : ∀ i ∈ second, ∀ j ∈ livePlaces dice \ (first ∪ second), Sooner (!highest) dice i j
  apart : ∀ i ∈ first, ∀ j ∈ second, ∀ a ∈ dice[i]?, ∀ b ∈ dice[j]?,
    if highest then b.value ≤ a.value else a.value ≤ b.value

namespace BothEnds

variable {first second other others : Finset Nat}

theorem swap (h : BothEnds highest dice first second) :
    BothEnds (!highest) dice second first where
  live := by
    rw [Finset.union_comm]
    exact h.live
  sooner := by
    rw [Finset.union_comm]
    exact h.later
  later := by
    rw [Finset.union_comm, Bool.not_not]
    exact h.sooner
  apart := by
    intro i inside j here a foundA b foundB
    have apart := h.apart j here i inside b foundB a foundA
    cases highest <;> exact apart

/-- A die cannot be dropped from the first end in one way and be left in another way that drops a
die which the one way leaves. -/
theorem not_left (h : BothEnds highest dice first second)
    (k : BothEnds highest dice other others) (size : other.card = first.card) {i j : Nat}
    (inside : i ∈ first) (leftI : i ∈ livePlaces dice \ (other ∪ others))
    (dropped : j ∈ other ∪ others) (leftJ : j ∈ livePlaces dice \ (first ∪ second)) : False := by
  obtain ⟨liveI, outside⟩ := Finset.mem_sdiff.mp leftI
  have liveJ := (Finset.mem_sdiff.mp leftJ).1
  have forth := h.sooner i inside j leftJ
  cases Finset.mem_union.mp dropped with
  | inl sameEnd =>
    have back := k.sooner j sameEnd i leftI
    exact forth.asymm liveI liveJ back
  | inr otherEnd =>
    -- the other way drops a die in place of the first one, and that die would lie in between
    have more : ∃ m ∈ other, m ∉ first := by
      by_contra none
      push Not at none
      have equal : other = first := Finset.eq_of_subset_of_card_le none size.ge
      exact outside (Finset.mem_union_left _ (equal ▸ inside))
    obtain ⟨m, member, missing⟩ := more
    have liveM := k.live (Finset.mem_union_left _ member)
    have before := k.sooner m member i leftI
    by_cases low : m ∈ second
    · obtain ⟨a, foundA, _⟩ := mem_livePlaces.mp liveI
      obtain ⟨b, foundB, _⟩ := mem_livePlaces.mp liveJ
      obtain ⟨c, foundC, _⟩ := mem_livePlaces.mp liveM
      have apart := h.apart i inside m low a foundA c foundC
      have below := (h.later m low j leftJ c foundC b foundB).1
      have above := (before c foundC a foundA).1
      have first := forth a foundA b foundB
      have last := k.later j otherEnd i leftI b foundB a foundA
      cases highest <;> simp at apart below above first last <;> omega
    · have left : m ∈ livePlaces dice \ (first ∪ second) := by
        rw [Finset.mem_sdiff, Finset.mem_union, not_or]
        exact ⟨liveM, missing, low⟩
      exact (h.sooner i inside m left).asymm liveI liveM before

theorem subset (h : BothEnds highest dice first second) (k : BothEnds highest dice other others)
    (size : other.card = first.card) (sizes : others.card = second.card)
    (whole : (other ∪ others).card = (first ∪ second).card) :
    first ∪ second ⊆ other ∪ others := by
  intro i member
  by_contra outside
  have more : ∃ j ∈ other ∪ others, j ∉ first ∪ second := by
    by_contra none
    push Not at none
    have equal := Finset.eq_of_subset_of_card_le none whole.ge
    exact outside (equal ▸ member)
  obtain ⟨j, dropped, missing⟩ := more
  have leftI := Finset.mem_sdiff.mpr ⟨h.live member, outside⟩
  have leftJ := Finset.mem_sdiff.mpr ⟨k.live dropped, missing⟩
  cases Finset.mem_union.mp member with
  | inl inside => exact h.not_left k size inside leftI dropped leftJ
  | inr inside =>
    rw [Finset.union_comm] at leftI dropped leftJ
    exact h.swap.not_left k.swap sizes inside leftI dropped (Finset.union_comm second first ▸ leftJ)

end BothEnds

theorem livePlaces_dropDice (highest : Bool) {n : Nat} (enough : n ≤ liveCount dice) :
    livePlaces (dropDice highest n dice) = livePlaces dice \ firstPlaces highest n dice := by
  rw [dropDice_eq highest enough, livePlaces_dropPlaces]

theorem liveCount_dropDice (highest : Bool) {n : Nat} (enough : n ≤ liveCount dice) :
    liveCount (dropDice highest n dice) = liveCount dice - n := by
  have drops := firstPlaces_drops highest enough
  have card := drops.card
  have parts := Finset.card_sdiff_add_card_eq_card drops.live
  rw [← card_livePlaces, livePlaces_dropDice highest enough, ← card_livePlaces]
  omega

theorem dropDice_dropDice (highest : Bool) {a b : Nat} (enough : a + b ≤ liveCount dice) :
    ∃ first second, BothEnds highest dice first second ∧
      first.card = a ∧ second.card = b ∧ (first ∪ second).card = a + b ∧
      dropDice (!highest) b (dropDice highest a dice) = dropPlaces (first ∪ second) dice := by
  have enoughFirst : a ≤ liveCount dice := by omega
  have enoughThen : b ≤ liveCount (dropDice highest a dice) := by
    rw [liveCount_dropDice highest enoughFirst]
    omega
  have drops := firstPlaces_drops highest enoughFirst
  have next := firstPlaces_drops (!highest) enoughThen
  generalize secondEq : firstPlaces (!highest) b (dropDice highest a dice) = second at next
  generalize firstEq : firstPlaces highest a dice = first at drops
  have live := livePlaces_dropDice highest enoughFirst
  have dropped := dropDice_eq highest enoughFirst
  rw [firstEq] at live dropped
  have within : second ⊆ livePlaces dice \ first := live ▸ next.live
  obtain ⟨liveSecond, apart⟩ := Finset.subset_sdiff.mp within
  have cardFirst : first.card = a := by exact_mod_cast drops.card
  have cardSecond : second.card = b := by exact_mod_cast next.card
  refine ⟨first, second, ⟨?_, ?_, ?_, ?_⟩, cardFirst, cardSecond, ?_, ?_⟩
  · exact Finset.union_subset drops.live liveSecond
  · intro i inside j left
    have outside := Finset.sdiff_subset_sdiff subset_rfl Finset.subset_union_left left
    exact drops.sooner i inside j outside
  · intro i inside j left
    rw [← Finset.sup_eq_union, ← sdiff_sdiff_left] at left
    have later := next.sooner i inside j (live ▸ left)
    rwa [dropped, sooner_dropPlaces] at later
  · intro i inside j here a foundA b foundB
    exact (drops.sooner i inside j (within here) a foundA b foundB).1
  · rw [Finset.card_union_of_disjoint apart.symm, cardFirst, cardSecond]
  · rw [dropDice_eq (!highest) enoughThen, secondEq, dropped, dropPlaces_dropPlaces]

theorem dropDice_comm (highest : Bool) {a b : Nat} (enough : a + b ≤ liveCount dice) :
    dropDice (!highest) b (dropDice highest a dice) =
      dropDice highest a (dropDice (!highest) b dice) := by
  obtain ⟨first, second, both, size, sizes, whole, ran⟩ := dropDice_dropDice highest enough
  obtain ⟨others, other, swapped, sizesThere, sizeThere, wholeThere, ranThere⟩ :=
    dropDice_dropDice (!highest) ((Nat.add_comm b a).trans_le enough)
  have there := swapped.swap
  rw [Bool.not_not] at there ranThere
  have subset := both.subset there (sizeThere.trans size.symm) (sizesThere.trans sizes.symm) (by
    rw [Finset.union_comm, wholeThere, whole, Nat.add_comm])
  have same : first ∪ second = others ∪ other := by
    rw [Finset.union_comm others other]
    apply Finset.eq_of_subset_of_card_le subset
    rw [Finset.union_comm, wholeThere, whole, Nat.add_comm]
  rw [ran, ranThere, same]

theorem dropDice_all (highest : Bool) {a b : Nat} (all : a + b = liveCount dice) :
    dropDice (!highest) b (dropDice highest a dice) = dropPlaces (livePlaces dice) dice := by
  obtain ⟨first, second, both, _, _, whole, ran⟩ := dropDice_dropDice highest all.le
  have every : first ∪ second = livePlaces dice := by
    apply Finset.eq_of_subset_of_card_le both.live
    rw [card_livePlaces, whole, all]
  rw [ran, every]

theorem select_dropHigh_dropLow (a b : Int) (dice : List Die) :
    select .dropLow b (select .dropHigh a dice) = select .dropHigh a (select .dropLow b dice) := by
  have clampedA : clampCount a dice ≤ liveCount dice := Nat.min_le_right _ _
  have clampedB : clampCount b dice ≤ liveCount dice := Nat.min_le_right _ _
  have leftB : clampCount b (select .dropHigh a dice) =
      min b.toNat (liveCount dice - clampCount a dice) := by
    rw [clampCount, select, liveCount_dropDice true clampedA]
  have leftA : clampCount a (select .dropLow b dice) =
      min a.toNat (liveCount dice - clampCount b dice) := by
    rw [clampCount, select, liveCount_dropDice false clampedB]
  have low : select .dropLow b (select .dropHigh a dice) =
      dropDice false (clampCount b (select .dropHigh a dice))
        (dropDice true (clampCount a dice) dice) := rfl
  have high : select .dropHigh a (select .dropLow b dice) =
      dropDice true (clampCount a (select .dropLow b dice))
        (dropDice false (clampCount b dice) dice) := rfl
  rw [low, high, leftA, leftB]
  unfold clampCount at *
  by_cases enough : a.toNat + b.toNat ≤ liveCount dice
  · have counts : min a.toNat (liveCount dice) = a.toNat ∧ min b.toNat (liveCount dice) = b.toNat ∧
        min b.toNat (liveCount dice - a.toNat) = b.toNat ∧
        min a.toNat (liveCount dice - b.toNat) = a.toNat := by omega
    rw [counts.1, counts.2.1, counts.2.2.1, counts.2.2.2]
    exact dropDice_comm true enough
  · have first : min a.toNat (liveCount dice) +
        min b.toNat (liveCount dice - min a.toNat (liveCount dice)) = liveCount dice := by omega
    have second : min b.toNat (liveCount dice) +
        min a.toNat (liveCount dice - min b.toNat (liveCount dice)) = liveCount dice := by omega
    exact (dropDice_all true first).trans (dropDice_all false second).symm

end BothEnds

theorem lastOfEach_append {first second : List Modifier}
    (kinds : ∀ kind, first.any (·.kind = kind) = second.any (·.kind = kind))
    (front : List Modifier) :
    ∃ kept, lastOfEach (front ++ first) = kept ++ lastOfEach first ∧
      lastOfEach (front ++ second) = kept ++ lastOfEach second := by
  induction front with
  | nil => exact ⟨[], rfl, rfl⟩
  | cons m front ih =>
    obtain ⟨kept, keptFirst, keptSecond⟩ := ih
    have same : (front ++ first).any (·.kind = m.kind) =
        (front ++ second).any (·.kind = m.kind) := by
      rw [List.any_append, List.any_append, kinds]
    simp only [List.cons_append, lastOfEach, same, keptFirst, keptSecond]
    split
    · exact ⟨kept, rfl, rfl⟩
    · exact ⟨m :: kept, rfl, rfl⟩

theorem lastOfEach_overridden {m : Modifier} {rest : List Modifier}
    (overridden : rest.any (·.kind = m.kind) = true) (front : List Modifier) :
    lastOfEach (front ++ m :: rest) = lastOfEach (front ++ rest) := by
  have kinds : ∀ kind, (m :: rest).any (·.kind = kind) = rest.any (·.kind = kind) := by
    intro kind
    rw [List.any_cons]
    by_cases same : m.kind = kind
    · subst same
      rw [overridden, Bool.or_true]
    · rw [decide_eq_false same, Bool.false_or]
  obtain ⟨kept, keptFirst, keptSecond⟩ := lastOfEach_append kinds front
  rw [keptFirst, keptSecond, lastOfEach, if_pos overridden]

/-- What takes effect of two lists that differ in the order of two neighbours: the same modifiers,
or both neighbours, still side by side. -/
inductive Swapped (first second : Modifier) : List Modifier → List Modifier → Prop where
  | same (modifiers : List Modifier) : Swapped first second modifiers modifiers
  | both (kept others : List Modifier) :
      Swapped first second (kept ++ first :: second :: others) (kept ++ second :: first :: others)

theorem lastOfEach_swap {first second : Modifier} (different : first.kind ≠ second.kind)
    (front rest : List Modifier) :
    Swapped first second (lastOfEach (front ++ first :: second :: rest))
      (lastOfEach (front ++ second :: first :: rest)) := by
  have kinds : ∀ kind, (first :: second :: rest).any (·.kind = kind) =
      (second :: first :: rest).any (·.kind = kind) := by
    intro kind
    simp only [List.any_cons]
    exact Bool.or_left_comm _ _ _
  obtain ⟨kept, keptFirst, keptSecond⟩ := lastOfEach_append kinds front
  rw [keptFirst, keptSecond]
  simp only [lastOfEach, List.any_cons, decide_eq_false different, decide_eq_false different.symm,
    Bool.false_or]
  split
  · split <;> exact .same _
  · split
    · exact .same _
    · exact .both kept (lastOfEach rest)

theorem Stage.select_overridden (stage : Stage) (front : List Modifier) {m : Modifier}
    {rest : List Modifier} (later : ∃ other ∈ rest, other.kind = m.kind) :
    stage.select (front ++ m :: rest) = stage.select (front ++ rest) := by
  unfold select
  rw [List.filter_append, List.filter_append]
  by_cases here : m.kind.stage = stage
  · have overridden : (rest.filter (·.kind.stage = stage)).any (·.kind = m.kind) = true := by
      obtain ⟨other, member, same⟩ := later
      rw [List.any_eq_true]
      refine ⟨other, List.mem_filter.mpr ⟨member, ?_⟩, decide_eq_true same⟩
      rw [same]
      exact decide_eq_true here
    rw [List.filter_cons_of_pos (by simpa using here), lastOfEach_overridden overridden]
  · rw [List.filter_cons_of_neg (by simpa using here)]

/-- Neighbours of one stage only can be seen to be exchanged. -/
theorem Stage.select_swap (stage : Stage) (front rest : List Modifier) {first second : Modifier}
    (different : first.kind ≠ second.kind) :
    Swapped first second (stage.select (front ++ first :: second :: rest))
        (stage.select (front ++ second :: first :: rest)) ∧
      (first.kind.stage ≠ second.kind.stage →
        stage.select (front ++ first :: second :: rest) =
          stage.select (front ++ second :: first :: rest)) := by
  unfold select
  rw [List.filter_append, List.filter_append]
  by_cases both : first.kind.stage = stage ∧ second.kind.stage = stage
  · simp only [List.filter_cons, decide_eq_true both.1, decide_eq_true both.2, ite_true]
    refine ⟨lastOfEach_swap different _ _, ?_⟩
    intro apart
    exact absurd (both.1.trans both.2.symm) apart
  · have same : (first :: second :: rest).filter (·.kind.stage = stage) =
        (second :: first :: rest).filter (·.kind.stage = stage) := by
      by_cases here : first.kind.stage = stage
      · have there : second.kind.stage ≠ stage := fun eq => both ⟨here, eq⟩
        simp only [List.filter_cons, decide_eq_false there, Bool.false_eq_true, ite_false]
      · simp only [List.filter_cons, decide_eq_false here, Bool.false_eq_true, ite_false]
    rw [same]
    exact ⟨.same _, fun _ => rfl⟩

inductive Rewriting : List Modifier → List Modifier → Prop where
  | overridden (front : List Modifier) (m : Modifier) (rest : List Modifier)
      (later : ∃ other ∈ rest, other.kind = m.kind) : Rewriting (front ++ m :: rest) (front ++ rest)
  | stages (front : List Modifier) (first second : Modifier) (rest : List Modifier)
      (different : first.kind.stage ≠ second.kind.stage) :
      Rewriting (front ++ first :: second :: rest) (front ++ second :: first :: rest)
  | ends (front : List Modifier) (a b : Int) (rest : List Modifier) :
      Rewriting (front ++ ⟨.dropHigh, some a⟩ :: ⟨.dropLow, some b⟩ :: rest)
        (front ++ ⟨.dropLow, some b⟩ :: ⟨.dropHigh, some a⟩ :: rest)

variable {σ : Type} [Source σ]

theorem Swapped.run_ends {a b : Int} {first second : List Modifier}
    (h : Swapped ⟨.dropHigh, some a⟩ ⟨.dropLow, some b⟩ first second) (limits : Limits)
    (sides : Option Int) (dice : List Die) :
    (first.foldlM (Modifier.run limits sides) dice : Rolling σ (List Die)) =
      second.foldlM (Modifier.run limits sides) dice := by
  have step (kind : ModifierKind) (selects : kind.stage = .selection) (n : Int) (dice : List Die) :
      (Modifier.run limits sides dice ⟨kind, some n⟩ : Rolling σ (List Die)) =
        pure (select kind n dice) := by
    unfold Modifier.run
    simp only [selects]
  cases h with
  | same => rfl
  | both kept others =>
    simp only [List.foldlM_append, List.foldlM_cons, step .dropHigh rfl, step .dropLow rfl,
      pure_bind, select_dropHigh_dropLow]

theorem Rewriting.foldlM_select {first second : List Modifier} (h : Rewriting first second)
    (stage : Stage) (limits : Limits) (sides : Option Int) (dice : List Die) :
    ((stage.select first).foldlM (Modifier.run limits sides) dice : Rolling σ (List Die)) =
      (stage.select second).foldlM (Modifier.run limits sides) dice := by
  cases h with
  | overridden front m rest later => rw [stage.select_overridden front later]
  | stages front first second rest different =>
    have kinds : first.kind ≠ second.kind := fun same => different (congrArg _ same)
    rw [(stage.select_swap front rest kinds).2 different]
  | ends front a b rest =>
    exact (stage.select_swap front rest (by simp)).1.run_ends limits sides dice

def withText (text : String) (rolled : RolledTerm × Total) : RolledTerm × Total :=
  ({ rolled.1 with expression := text }, rolled.2)

/-- A term with rewritten modifiers has the same dice with the same marks and the same total, or the
same error, and leaves the same source behind. A source may write down what it is asked for, so the
draws are the same too. -/
theorem DiceTerm.roll_rewritten {t : DiceTerm} {changed : List Modifier}
    (rewriting : Rewriting t.modifiers changed) (text : String) (limits : Limits) {s last : σ}
    {outcome : Except RollError (RolledTerm × Total)}
    (ran : (t.roll limits).run s = (outcome, last)) :
    (DiceTerm.roll limits { t with modifiers := changed, text := text }).run s =
      (outcome.map (withText text), last) := by
  have stage (stage : Stage) (dice : List Die) :
      (stage.run limits { t with modifiers := changed, text := text } dice :
        Rolling σ (List Die)) = stage.run limits t dice :=
    (rewriting.foldlM_select stage limits t.sides dice).symm
  have dice : (DiceTerm.rollDice limits { t with modifiers := changed, text := text } :
      Rolling σ (List Die)) = t.rollDice limits := by
    unfold DiceTerm.rollDice
    simp only [stage]
  unfold DiceTerm.roll at ran ⊢
  rw [dice]
  cases rolled : (t.rollDice limits : Rolling σ (List Die)).run s with
  | mk result now =>
    cases result with
    | error e =>
      rw [run_bind_of_error rolled] at ran ⊢
      cases ran
      rfl
    | ok dice =>
      rw [run_bind_of_ok rolled] at ran ⊢
      cases ran
      rfl

/-- Three fives and a six are dropped, whichever end comes first, and an explosion was drawn. -/
theorem tied_fives_rewritten :
    let t : DiceTerm := ⟨4, some 6, [⟨.dropHigh, some 2⟩, ⟨.dropLow, some 2⟩, ⟨.explode, none⟩],
      none, "4d6 D2 d2 e"⟩
    let faces : Recorder Script := ⟨Script.ofList [5, 5, 6, 5, 5] false, []⟩
    ∃ rolled total last,
      (t.roll {}).run faces = (.ok (rolled, total), last) ∧
      rolled.dice.map Die.dropped = [true, true, true, true, false] ∧
      last.requests.length = 5 ∧
      (DiceTerm.roll {} { t with
          modifiers := [⟨.dropLow, some 2⟩, ⟨.dropHigh, some 2⟩, ⟨.explode, none⟩]
          text := "4d6 d2 D2 e" }).run faces =
        (.ok ({ rolled with expression := "4d6 d2 D2 e" }, total), last) := by
  intro t faces
  obtain ⟨rolled, shown⟩ : ∃ rolled : RolledTerm, rolled = ⟨t.text, some 6,
    [{ value := 5, dropped := true }, { value := 5, dropped := true },
     { value := 6, dropped := true, exploded := true, extreme := .highest },
     { value := 5, dropped := true }, { value := 5, origin := .explosion }]⟩ := ⟨_, rfl⟩
  have ran : (t.roll {} : Rolling (Recorder Script) (RolledTerm × Total)).run faces =
      (.ok (rolled, .value (.ofInt 5)), ⟨⟨[5, 5, 6, 5, 5], [], false, 5⟩,
        [(6, .ok 5), (6, .ok 5), (6, .ok 6), (6, .ok 5), (6, .ok 5)]⟩) := by
    rw [shown]
    cbv
  have rewriting : Rewriting t.modifiers
      [⟨.dropLow, some 2⟩, ⟨.dropHigh, some 2⟩, ⟨.explode, none⟩] :=
    .ends [] 2 2 [⟨.explode, none⟩]
  refine ⟨rolled, _, _, ran, ?_, rfl, DiceTerm.roll_rewritten rewriting "4d6 d2 D2 e" {} ran⟩
  rw [shown]
  decide

end DiceNotation
