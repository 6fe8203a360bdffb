import DiceNotation.Dice.Selection
import Mathlib.Data.Finset.Card

/-!
Which dice a selection drops. The live dice of a list stand in a strict order, by value and then by
place, and a selection drops a first part of it. A first part is determined by its size.
-/
namespace DiceNotation

def livePlaces (dice : List Die) : Finset Nat :=
  (Finset.range dice.length).filter fun place => dice[place]?.any Die.live

def dropPlaces (dropped : Finset Nat) (dice : List Die) : List Die :=
  dice.mapIdx fun place die => if place ∈ dropped then die.markDropped else die

/-- The die at the first place lies no further from the end that is dropped than the die at the
second place, and of two equal dice it is the one that was rolled earlier. -/
def Sooner (highest : Bool) (dice : List Die) (first second : Nat) : Prop :=
  ∀ a ∈ dice[first]?, ∀ b ∈ dice[second]?,
    (if highest then b.value ≤ a.value else a.value ≤ b.value) ∧
      (a.value = b.value → first < second)

/-- So many live dice, each of which is dropped sooner than each of the other live dice. -/
structure Drops (highest : Bool) (number : Int) (dice : List Die) (dropped : Finset Nat) :
    Prop where
  live : dropped ⊆ livePlaces dice
  card : (dropped.card : Int) = number
  sooner : ∀ i ∈ dropped, ∀ j ∈ livePlaces dice \ dropped, Sooner highest dice i j

structure Keeps (highest : Bool) (number : Int) (dice : List Die) (kept : Finset Nat) : Prop where
  live : kept ⊆ livePlaces dice
  card : (kept.card : Int) = number
  later : ∀ i ∈ kept, ∀ j ∈ livePlaces dice \ kept, Sooner (!highest) dice j i

section Places

variable {dice : List Die} {dropped : Finset Nat} {place : Nat}

theorem mem_livePlaces :
    place ∈ livePlaces dice ↔ ∃ die, dice[place]? = some die ∧ die.live = true := by
  simp only [livePlaces, Finset.mem_filter, Finset.mem_range, Option.any_eq_true]
  constructor
  · intro h
    exact h.2
  · intro h
    obtain ⟨die, found, live⟩ := h
    exact ⟨(List.getElem?_eq_some_iff.mp found).1, die, found, live⟩

theorem getElem?_dropPlaces (dropped : Finset Nat) (dice : List Die) (place : Nat) :
    (dropPlaces dropped dice)[place]? =
      dice[place]?.map fun die => if place ∈ dropped then die.markDropped else die := by
  rw [dropPlaces, List.getElem?_mapIdx]

theorem dropPlaces_none (dice : List Die) : dropPlaces ∅ dice = dice := by
  apply List.ext_getElem?
  intro place
  simp [getElem?_dropPlaces]

theorem not_live_markDropped (die : Die) : die.markDropped.live = false := by
  simp [Die.live, Die.markDropped]

theorem livePlaces_dropPlaces (dropped : Finset Nat) (dice : List Die) :
    livePlaces (dropPlaces dropped dice) = livePlaces dice \ dropped := by
  ext place
  simp only [mem_livePlaces, Finset.mem_sdiff, getElem?_dropPlaces, Option.map_eq_some_iff]
  by_cases member : place ∈ dropped
  · simp [member, not_live_markDropped]
  · simp [member]

theorem map_dropPlaces {β : Type} {f : Die → β} (keeps : ∀ die, f (Die.markDropped die) = f die)
    (dropped : Finset Nat) (dice : List Die) : (dropPlaces dropped dice).map f = dice.map f := by
  apply List.ext_getElem?
  intro place
  rw [List.getElem?_map, List.getElem?_map, getElem?_dropPlaces, Option.map_map]
  congr 1
  funext die
  rw [Function.comp_apply]
  split
  · exact keeps die
  · rfl

theorem countP_dropPlaces {p : Die → Bool} (keeps : ∀ die, p (Die.markDropped die) = p die)
    (dropped : Finset Nat) (dice : List Die) :
    (dropPlaces dropped dice).countP p = dice.countP p := by
  have same := congrArg (List.countP id) (map_dropPlaces keeps dropped dice)
  rwa [List.countP_map, List.countP_map, Function.id_comp] at same

theorem forall_mem_dropPlaces {P : Die → Prop} {dropped : Finset Nat}
    (live : dropped ⊆ livePlaces dice) (old : ∀ d ∈ dice, P d)
    (drop : ∀ die : Die, P die → die.live = true → P die.markDropped) :
    ∀ d ∈ dropPlaces dropped dice, P d := by
  intro d member
  obtain ⟨place, found⟩ := List.mem_iff_getElem?.mp member
  rw [getElem?_dropPlaces, Option.map_eq_some_iff] at found
  obtain ⟨die, here, eq⟩ := found
  have before := old die (List.mem_of_getElem? here)
  split at eq
  · rename_i inside
    obtain ⟨other, there, alive⟩ := mem_livePlaces.mp (live inside)
    rw [here] at there
    cases there
    exact eq ▸ drop die before alive
  · exact eq ▸ before

end Places

section Order

variable {highest : Bool} {number : Int} {dice : List Die} {i j : Nat}

theorem Sooner.asymm (h : Sooner highest dice i j) (liveI : i ∈ livePlaces dice)
    (liveJ : j ∈ livePlaces dice) : ¬ Sooner highest dice j i := by
  intro back
  obtain ⟨a, foundA, _⟩ := mem_livePlaces.mp liveI
  obtain ⟨b, foundB, _⟩ := mem_livePlaces.mp liveJ
  have forth := h a foundA b foundB
  have back := back b foundB a foundA
  have same : a.value = b.value := by
    cases highest <;> simp at forth back <;> omega
  have before := forth.2 same
  have behind := back.2 same.symm
  omega

/-- A set of dice that go sooner than all others contains each set of this kind that has no more
dice: a die of the other set that is missing from it would have to go both sooner and later than
one of its own. -/
theorem Drops.subset {dropped other : Finset Nat} (h : Drops highest number dice dropped)
    (k : Drops highest number dice other) : other ⊆ dropped := by
  intro j member
  by_contra missing
  have size : dropped.card = other.card := by
    have := h.card
    have := k.card
    omega
  have more : ∃ i ∈ dropped, i ∉ other := by
    by_contra none
    push Not at none
    have equal : dropped = other := Finset.eq_of_subset_of_card_le none (Nat.le_of_eq size.symm)
    rw [equal] at missing
    exact missing member
  obtain ⟨i, inside, outside⟩ := more
  have liveI := h.live inside
  have liveJ := k.live member
  have forth := h.sooner i inside j (Finset.mem_sdiff.mpr ⟨liveJ, missing⟩)
  have back := k.sooner j member i (Finset.mem_sdiff.mpr ⟨liveI, outside⟩)
  exact forth.asymm liveI liveJ back

theorem Drops.unique {dropped other : Finset Nat} (h : Drops highest number dice dropped)
    (k : Drops highest number dice other) : other = dropped :=
  Finset.Subset.antisymm (h.subset k) (k.subset h)

/-- What is not dropped from one end is kept at the other. -/
theorem keeps_iff_drops {kept : Finset Nat} (live : kept ⊆ livePlaces dice) :
    Keeps highest number dice kept ↔
      Drops (!highest) ((livePlaces dice).card - number) dice (livePlaces dice \ kept) := by
  have size := Finset.card_sdiff_add_card_eq_card live
  have others : livePlaces dice \ (livePlaces dice \ kept) = kept :=
    Finset.sdiff_sdiff_eq_self live
  constructor
  · intro h
    have card := h.card
    constructor
    · exact Finset.sdiff_subset
    · omega
    · rw [others]
      intro j out i inside
      exact h.later i inside j out
  · intro h
    have card := h.card
    constructor
    · exact live
    · omega
    · intro i inside j out
      apply h.sooner j out i
      rw [others]
      exact inside

end Order

section DropOrder

variable {highest : Bool} {dice : List Die}

theorem rankLe_iff {a b : Int × Nat} :
    rankLe a b = true ↔ a.1 < b.1 ∨ a.1 = b.1 ∧ a.2 ≤ b.2 := by
  simp [rankLe]

theorem rankLe_antisymm {a b : Int × Nat} (h : rankLe a b = true) (k : rankLe b a = true) :
    a = b := by
  rw [rankLe_iff] at h k
  apply Prod.ext <;> omega

theorem dropOrder_sorted (highest : Bool) (dice : List Die) :
    (dropOrder highest dice).Pairwise fun a b => rankLe a b = true := by
  apply List.pairwise_mergeSort
  · intro a b c first second
    rw [rankLe_iff] at first second ⊢
    omega
  · intro a b
    rw [Bool.or_eq_true, rankLe_iff, rankLe_iff]
    omega

theorem dropOrder_perm (highest : Bool) (dice : List Die) :
    (dropOrder highest dice).Perm
      ((dice.zipIdx.filter fun (die, _) => die.live).map fun (die, place) =>
        dropRank highest die place) :=
  List.mergeSort_perm _ _

theorem mem_dropOrder {rank : Int × Nat} :
    rank ∈ dropOrder highest dice ↔
      ∃ die place, dice[place]? = some die ∧ die.live = true ∧
        dropRank highest die place = rank := by
  rw [(dropOrder_perm highest dice).mem_iff]
  simp only [List.mem_map, List.mem_filter, Prod.exists, List.mem_zipIdx_iff_getElem?]
  simp only [and_assoc]

theorem dropOrder_length (highest : Bool) (dice : List Die) :
    (dropOrder highest dice).length = liveCount dice := by
  rw [(dropOrder_perm highest dice).length_eq, List.length_map, ← List.countP_eq_length_filter,
    liveCount]
  conv_rhs => rw [← List.zipIdx_map_fst 0 dice, List.countP_map]
  rfl

theorem dropOrder_places_nodup (highest : Bool) (dice : List Die) :
    ((dropOrder highest dice).map Prod.snd).Nodup := by
  rw [((dropOrder_perm highest dice).map Prod.snd).nodup_iff, List.map_map]
  have places : (dice.zipIdx.map Prod.snd).Nodup := by
    rw [List.zipIdx_map_snd]
    exact List.nodup_range'
  exact (List.filter_sublist.map Prod.snd).nodup places

theorem rankLe_of_take {n : Nat} {a b : Int × Nat} (front : a ∈ (dropOrder highest dice).take n)
    (member : b ∈ dropOrder highest dice) (back : b ∉ (dropOrder highest dice).take n) :
    rankLe a b = true := by
  have sorted := dropOrder_sorted highest dice
  rw [← List.take_append_drop n (dropOrder highest dice)] at sorted member
  have rest : b ∈ (dropOrder highest dice).drop n := by
    cases List.mem_append.mp member with
    | inl first => exact absurd first back
    | inr rest => exact rest
  exact (List.pairwise_append.mp sorted).2.2 a front b rest

theorem mem_take_iff_rankLe {last : Nat} {cutoff rank : Int × Nat}
    (found : (dropOrder highest dice)[last]? = some cutoff)
    (member : rank ∈ dropOrder highest dice) :
    rank ∈ (dropOrder highest dice).take (last + 1) ↔ rankLe rank cutoff = true := by
  have whole : (dropOrder highest dice).take (last + 1) =
      (dropOrder highest dice).take last ++ [cutoff] := by
    rw [List.take_add_one, found, Option.toList_some]
  constructor
  · intro front
    have sorted := (dropOrder_sorted highest dice).sublist (List.take_sublist (last + 1) _)
    rw [whole] at sorted front
    cases List.mem_append.mp front with
    | inl before => exact (List.pairwise_append.mp sorted).2.2 rank before cutoff (by simp)
    | inr same =>
      rw [List.mem_singleton.mp same, rankLe_iff]
      omega
  · intro before
    by_contra behind
    have front : cutoff ∈ (dropOrder highest dice).take (last + 1) := by simp [whole]
    have after := rankLe_of_take front member behind
    rw [rankLe_antisymm before after] at behind
    exact behind front

def firstPlaces (highest : Bool) (n : Nat) (dice : List Die) : Finset Nat :=
  (((dropOrder highest dice).take n).map Prod.snd).toFinset

theorem mem_firstPlaces {n place : Nat} :
    place ∈ firstPlaces highest n dice ↔
      ∃ die, dice[place]? = some die ∧ die.live = true ∧
        dropRank highest die place ∈ (dropOrder highest dice).take n := by
  rw [firstPlaces, List.mem_toFinset, List.mem_map]
  constructor
  · intro h
    obtain ⟨rank, member, same⟩ := h
    obtain ⟨die, source, found, live, eq⟩ := mem_dropOrder.mp (List.mem_of_mem_take member)
    have here : source = place := by rw [← same, ← eq, dropRank]
    subst here
    exact ⟨die, found, live, eq ▸ member⟩
  · intro h
    obtain ⟨die, _, _, member⟩ := h
    exact ⟨_, member, rfl⟩

theorem mem_firstPlaces_of_getElem? {n place : Nat} {die : Die} (found : dice[place]? = some die) :
    place ∈ firstPlaces highest n dice ↔
      die.live = true ∧ dropRank highest die place ∈ (dropOrder highest dice).take n := by
  rw [mem_firstPlaces]
  simp [found]

theorem sooner_of_rankLe {a b : Die} {i j : Nat} (foundA : dice[i]? = some a)
    (foundB : dice[j]? = some b) (different : i ≠ j)
    (before : rankLe (dropRank highest a i) (dropRank highest b j) = true) :
    Sooner highest dice i j := by
  intro a' hereA b' hereB
  rw [foundA] at hereA
  rw [foundB] at hereB
  cases hereA
  cases hereB
  rw [rankLe_iff] at before
  cases highest <;> simp [dropRank] at before ⊢ <;> omega

theorem firstPlaces_drops (highest : Bool) {n : Nat} {dice : List Die}
    (enough : n ≤ liveCount dice) : Drops highest n dice (firstPlaces highest n dice) := by
  constructor
  · intro place member
    obtain ⟨die, found, live, _⟩ := mem_firstPlaces.mp member
    exact mem_livePlaces.mpr ⟨die, found, live⟩
  · have nodup : (((dropOrder highest dice).take n).map Prod.snd).Nodup :=
      ((List.take_sublist n _).map Prod.snd).nodup (dropOrder_places_nodup highest dice)
    rw [firstPlaces, List.toFinset_card_of_nodup nodup, List.length_map, List.length_take,
      dropOrder_length, Nat.min_eq_left enough]
  · intro i inside j out
    obtain ⟨a, foundA, _, front⟩ := mem_firstPlaces.mp inside
    obtain ⟨live, outside⟩ := Finset.mem_sdiff.mp out
    obtain ⟨b, foundB, liveB⟩ := mem_livePlaces.mp live
    have back : dropRank highest b j ∉ (dropOrder highest dice).take n := by
      intro member
      exact outside (mem_firstPlaces.mpr ⟨b, foundB, liveB, member⟩)
    have member : dropRank highest b j ∈ dropOrder highest dice :=
      mem_dropOrder.mpr ⟨b, j, foundB, liveB, rfl⟩
    have different : i ≠ j := by
      intro same
      subst same
      exact outside inside
    exact sooner_of_rankLe foundA foundB different (rankLe_of_take front member back)

/-- Dropping by a cutoff rank drops the first part of the order. -/
theorem dropDice_eq (highest : Bool) {n : Nat} {dice : List Die} (enough : n ≤ liveCount dice) :
    dropDice highest n dice = dropPlaces (firstPlaces highest n dice) dice := by
  cases n with
  | zero => simp [dropDice, firstPlaces, dropPlaces_none]
  | succ last =>
    have inside : last < (dropOrder highest dice).length := by
      rw [dropOrder_length]
      omega
    obtain ⟨cutoff, found⟩ : ∃ cutoff, (dropOrder highest dice)[last]? = some cutoff :=
      ⟨_, List.getElem?_eq_getElem inside⟩
    simp only [dropDice, found]
    apply List.ext_getElem?
    intro place
    rw [getElem?_dropPlaces, List.getElem?_map, List.getElem?_zipIdx]
    cases here : dice[place]? with
    | none => rfl
    | some die =>
      have first : (die.live && rankLe (dropRank highest die place) cutoff) = true ↔
          place ∈ firstPlaces highest (last + 1) dice := by
        rw [mem_firstPlaces_of_getElem? here, Bool.and_eq_true, and_congr_right_iff]
        intro live
        have member : dropRank highest die place ∈ dropOrder highest dice :=
          mem_dropOrder.mpr ⟨die, place, here, live, rfl⟩
        exact (mem_take_iff_rankLe found member).symm
      simp only [Option.map_some, Nat.zero_add, first]

theorem firstPlaces_all (highest : Bool) (dice : List Die) :
    firstPlaces highest (liveCount dice) dice = livePlaces dice := by
  ext place
  rw [mem_firstPlaces, mem_livePlaces, List.take_of_length_le (dropOrder_length highest dice).le]
  constructor
  · intro h
    obtain ⟨die, found, live, _⟩ := h
    exact ⟨die, found, live⟩
  · intro h
    obtain ⟨die, found, live⟩ := h
    exact ⟨die, found, live, mem_dropOrder.mpr ⟨die, place, found, live, rfl⟩⟩

theorem length_liveValues (dice : List Die) : (liveValues dice).length = liveCount dice := by
  rw [liveValues, List.length_map, liveCount, List.countP_eq_length_filter]

theorem card_livePlaces (dice : List Die) : (livePlaces dice).card = liveCount dice := by
  have card := (firstPlaces_drops true (Nat.le_refl (liveCount dice))).card
  rw [firstPlaces_all] at card
  omega

end DropOrder

theorem select_dropPlaces (kind : ModifierKind) (n : Int) (dice : List Die) :
    ∃ dropped ⊆ livePlaces dice, select kind n dice = dropPlaces dropped dice := by
  have drop (highest : Bool) (k : Nat) (enough : k ≤ liveCount dice) :
      ∃ dropped ⊆ livePlaces dice, dropDice highest k dice = dropPlaces dropped dice :=
    ⟨_, (firstPlaces_drops highest enough).live, dropDice_eq highest enough⟩
  have clamped : clampCount n dice ≤ liveCount dice := Nat.min_le_right _ _
  have rest : liveCount dice - clampCount n dice ≤ liveCount dice := Nat.sub_le _ _
  have none : ∃ dropped ⊆ livePlaces dice, dice = dropPlaces dropped dice :=
    ⟨∅, Finset.empty_subset _, (dropPlaces_none dice).symm⟩
  cases kind with
  | dropHigh => exact drop true _ clamped
  | dropLow => exact drop false _ clamped
  | keepHigh => exact drop false _ rest
  | keepLow => exact drop true _ rest
  | explode => exact none
  | explodeAll => exact none
  | reroll => exact none
  | rerollAll => exact none

/-- The result is the list with so many dice dropped from one end, and only these dice can be the
ones that are dropped. -/
def DropsExactly (highest : Bool) (number : Int) (dice result : List Die) : Prop :=
  ∃ dropped, Drops highest number dice dropped ∧ result = dropPlaces dropped dice ∧
    ∀ other, Drops highest number dice other → other = dropped

/-- The live dice of the result are so many dice of one end, and only these dice can be the ones
that are kept. -/
def KeepsExactly (highest : Bool) (number : Int) (dice result : List Die) : Prop :=
  Keeps highest number dice (livePlaces result) ∧
    ∀ other, Keeps highest number dice other → other = livePlaces result

theorem dropDice_exact (highest : Bool) {n : Nat} {dice : List Die} (enough : n ≤ liveCount dice) :
    DropsExactly highest n dice (dropDice highest n dice) := by
  have drops := firstPlaces_drops highest enough
  exact ⟨_, drops, dropDice_eq highest enough, fun other => drops.unique⟩

theorem DropsExactly.keeps {highest : Bool} {number : Int} {dice result : List Die}
    (h : DropsExactly (!highest) (liveCount dice - number) dice result) :
    KeepsExactly highest number dice result := by
  obtain ⟨dropped, drops, rfl, unique⟩ := h
  have others : livePlaces dice \ (livePlaces dice \ dropped) = dropped :=
    Finset.sdiff_sdiff_eq_self drops.live
  rw [← card_livePlaces] at drops unique
  rw [KeepsExactly, livePlaces_dropPlaces]
  constructor
  · rw [keeps_iff_drops Finset.sdiff_subset, others]
    exact drops
  · intro other keeps
    have same := unique _ ((keeps_iff_drops keeps.live).mp keeps)
    rw [← same, Finset.sdiff_sdiff_eq_self keeps.live]

def selectedCount (n : Int) (dice : List Die) : Int := max 0 (min n (liveCount dice))

theorem clampCount_eq (n : Int) (dice : List Die) :
    (clampCount n dice : Int) = selectedCount n dice := by
  rw [clampCount, selectedCount]
  omega

/-- A selection of `n` of `L` live dice drops `m = max 0 (min n L)` of them from one end, or drops
`L - m` from the other end and so keeps `m`. Of equal dice those that were rolled earlier are
dropped and those that were rolled later are kept. Nothing else is changed. -/
theorem select_exact (highest : Bool) (n : Int) (dice : List Die) :
    DropsExactly highest (selectedCount n dice) dice
        (select (if highest then .dropHigh else .dropLow) n dice) ∧
      DropsExactly (!highest) (liveCount dice - selectedCount n dice) dice
        (select (if highest then .keepHigh else .keepLow) n dice) ∧
      KeepsExactly highest (selectedCount n dice) dice
        (select (if highest then .keepHigh else .keepLow) n dice) := by
  have clamped : clampCount n dice ≤ liveCount dice := Nat.min_le_right _ _
  have drop := dropDice_exact highest clamped
  have keep := dropDice_exact (!highest) (Nat.sub_le (liveCount dice) (clampCount n dice))
  rw [Int.ofNat_sub clamped, clampCount_eq] at keep
  rw [clampCount_eq] at drop
  have dropped : select (if highest then .dropHigh else .dropLow) n dice =
      dropDice highest (clampCount n dice) dice := by
    cases highest <;> rfl
  have kept : select (if highest then .keepHigh else .keepLow) n dice =
      dropDice (!highest) (liveCount dice - clampCount n dice) dice := by
    cases highest <;> rfl
  rw [dropped, kept]
  exact ⟨drop, keep, keep.keeps⟩

/-- Of two fives the one that was rolled later is kept. -/
example : (select .keepHigh 1 [{ value := 5 }, { value := 2 }, { value := 5 }]).map Die.dropped =
    [true, true, false] := by
  cbv

end DiceNotation
