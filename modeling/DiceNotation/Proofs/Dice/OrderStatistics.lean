import DiceNotation.Dice.Term
import DiceNotation.Proofs.Dice.Chains
import DiceNotation.Proofs.Dice.Selection
import Mathlib

/-!
What a selection leaves, by value alone. The values of the live dice, in ascending order, are cut at
one end or at the other, and where they are cut is known without looking at them.
-/
namespace DiceNotation

def sortedValues (dice : List Die) : List Int := (liveValues dice).mergeSort

/-- The ranks from `lo` up to, but not including, `hi`. -/
structure Window where
  lo : Int
  hi : Int
  deriving DecidableEq, Repr

namespace Window

def whole (number : Int) : Window := ⟨0, number⟩

def select (w : Window) (kind : ModifierKind) (n : Int) : Window :=
  let m := max 0 (min n (w.hi - w.lo))
  match kind with
  | .dropHigh => { w with hi := w.hi - m }
  | .dropLow => { w with lo := w.lo + m }
  | .keepHigh => { w with lo := w.hi - m }
  | .keepLow => { w with hi := w.lo + m }
  | _ => w

def selectAll (w : Window) (modifiers : List Modifier) : Window :=
  modifiers.foldl (fun w m => m.value.elim w (w.select m.kind)) w

def slice (w : Window) (values : List Int) : List Int := values.extract w.lo.toNat w.hi.toNat

structure Fits (w : Window) (number : Int) : Prop where
  low : 0 ≤ w.lo
  ordered : w.lo ≤ w.hi
  high : w.hi ≤ number

theorem fits_whole (number : Nat) : (whole number).Fits number where
  low := Int.le_refl 0
  ordered := Int.natCast_nonneg number
  high := Int.le_refl _

theorem slice_whole (values : List Int) : (whole values.length).slice values = values := by
  simp [slice, whole]

end Window

section Slices

variable {dice : List Die}

theorem sortedValues_perm (dice : List Die) : (sortedValues dice).Perm (liveValues dice) :=
  List.mergeSort_perm _ _

theorem sortedValues_sorted (dice : List Die) : (sortedValues dice).Pairwise (· ≤ ·) := by
  have sorted : ((liveValues dice).mergeSort fun a b => decide (a ≤ b)).Pairwise
      fun a b => decide (a ≤ b) = true := by
    apply List.pairwise_mergeSort
    · intro a b c
      simp only [decide_eq_true_eq]
      exact Int.le_trans
    · intro a b
      rw [Bool.or_eq_true, decide_eq_true_eq, decide_eq_true_eq]
      exact Int.le_total a b
  simp only [decide_eq_true_eq] at sorted
  exact sorted

theorem length_sortedValues (dice : List Die) : (sortedValues dice).length = liveCount dice := by
  rw [(sortedValues_perm dice).length_eq, length_liveValues]

theorem sortedValues_eq {values : List Int} (sorted : values.Pairwise (· ≤ ·))
    (perm : values.Perm (liveValues dice)) : values = sortedValues dice :=
  List.Perm.eq_of_pairwise (fun _ _ _ _ => Int.le_antisymm) sorted (sortedValues_sorted dice)
    (perm.trans (sortedValues_perm dice).symm)

theorem mem_dropOrder_dropPlaces {highest : Bool} {dropped : Finset Nat} {rank : Int × Nat} :
    rank ∈ dropOrder highest (dropPlaces dropped dice) ↔
      ∃ die place, dice[place]? = some die ∧ place ∉ dropped ∧ die.live = true ∧
        dropRank highest die place = rank := by
  simp only [mem_dropOrder, getElem?_dropPlaces, Option.map_eq_some_iff]
  constructor
  · intro h
    obtain ⟨_, place, ⟨die, found, rfl⟩, live, rfl⟩ := h
    by_cases member : place ∈ dropped
    · rw [if_pos member, not_live_markDropped] at live
      cases live
    · rw [if_neg member] at live ⊢
      exact ⟨die, place, found, member, live, rfl⟩
  · intro h
    obtain ⟨die, place, found, outside, live, rfl⟩ := h
    exact ⟨die, place, ⟨die, found, if_neg outside⟩, live, rfl⟩

theorem dropOrder_nodup (highest : Bool) (dice : List Die) : (dropOrder highest dice).Nodup :=
  List.Nodup.of_map _ (dropOrder_places_nodup highest dice)

theorem dropOrder_dropDice (highest : Bool) {n : Nat} (enough : n ≤ liveCount dice) :
    dropOrder highest (dropDice highest n dice) = (dropOrder highest dice).drop n := by
  have nodup := dropOrder_nodup highest dice
  have parts := nodup
  rw [← List.take_append_drop n (dropOrder highest dice), List.nodup_append] at parts
  rw [dropDice_eq highest enough]
  apply List.Perm.eq_of_pairwise (fun _ _ _ _ => rankLe_antisymm) (dropOrder_sorted _ _)
    ((dropOrder_sorted highest dice).sublist (List.drop_sublist n _))
  rw [List.perm_ext_iff_of_nodup (dropOrder_nodup _ _) (nodup.sublist (List.drop_sublist n _))]
  intro rank
  rw [mem_dropOrder_dropPlaces]
  constructor
  · intro h
    obtain ⟨die, place, found, outside, live, rfl⟩ := h
    rw [mem_firstPlaces_of_getElem? found] at outside
    have member : dropRank highest die place ∈ dropOrder highest dice :=
      mem_dropOrder.mpr ⟨die, place, found, live, rfl⟩
    rw [← List.take_append_drop n (dropOrder highest dice), List.mem_append] at member
    exact member.resolve_left fun front => outside ⟨live, front⟩
  · intro back
    obtain ⟨die, place, found, live, rfl⟩ := mem_dropOrder.mp (List.mem_of_mem_drop back)
    refine ⟨die, place, found, ?_, live, rfl⟩
    rw [mem_firstPlaces_of_getElem? found]
    intro front
    exact parts.2.2 _ front.2 _ back rfl

theorem dropOrder_values (highest : Bool) (dice : List Die) :
    ((dropOrder highest dice).map fun rank => if highest then -rank.1 else rank.1).Perm
      (liveValues dice) := by
  have values := (dropOrder_perm highest dice).map
    fun rank : Int × Nat => if highest then -rank.1 else rank.1
  rw [List.map_map] at values
  refine values.trans (.of_eq ?_)
  have shown : ∀ entry : Die × Nat, (if highest then -(dropRank highest entry.1 entry.2).1
      else (dropRank highest entry.1 entry.2).1) = entry.1.value := by
    intro entry
    cases highest <;> simp [dropRank]
  rw [liveValues]
  conv_rhs => rw [← List.zipIdx_map_fst 0 dice, List.filter_map, List.map_map]
  exact List.map_congr_left fun entry _ => shown entry

theorem sortedValues_low (dice : List Die) :
    (dropOrder false dice).map Prod.fst = sortedValues dice := by
  apply sortedValues_eq
  · rw [List.pairwise_map]
    apply (dropOrder_sorted false dice).imp
    intro a b before
    rw [rankLe_iff] at before
    omega
  · simpa using dropOrder_values false dice

theorem sortedValues_high (dice : List Die) :
    ((dropOrder true dice).map fun rank => -rank.1).reverse = sortedValues dice := by
  apply sortedValues_eq
  · rw [List.pairwise_reverse, List.pairwise_map]
    apply (dropOrder_sorted true dice).imp
    intro a b before
    rw [rankLe_iff] at before
    omega
  · apply (List.reverse_perm _).trans
    simpa using dropOrder_values true dice

theorem sortedValues_dropLow {n : Nat} (enough : n ≤ liveCount dice) :
    sortedValues (dropDice false n dice) = (sortedValues dice).drop n := by
  rw [← sortedValues_low, ← sortedValues_low, dropOrder_dropDice false enough, List.map_drop]

theorem sortedValues_dropHigh {n : Nat} (enough : n ≤ liveCount dice) :
    sortedValues (dropDice true n dice) = (sortedValues dice).take (liveCount dice - n) := by
  rw [← sortedValues_high, ← sortedValues_high, dropOrder_dropDice true enough, List.map_drop,
    List.reverse_drop, List.length_map, dropOrder_length]

end Slices

/-- The values of the live dice are those of the window, and its ranks are ranks of the values. -/
structure Sliced (values : List Int) (w : Window) (dice : List Die) : Prop where
  fits : w.Fits values.length
  shown : sortedValues dice = w.slice values

namespace Sliced

variable {values : List Int} {w : Window} {dice : List Die}

theorem start (dice : List Die) :
    Sliced (sortedValues dice) (.whole (liveCount dice)) dice where
  fits := by
    rw [length_sortedValues]
    exact Window.fits_whole (liveCount dice)
  shown := by rw [← length_sortedValues, Window.slice_whole]

theorem liveCount (h : Sliced values w dice) : (liveCount dice : Int) = w.hi - w.lo := by
  obtain ⟨low, ordered, high⟩ := h.fits
  rw [← length_sortedValues, h.shown, Window.slice, List.extract_eq_take_drop, List.length_take,
    List.length_drop]
  omega

theorem dropLow (h : Sliced values w dice) {k : Nat} (enough : k ≤ DiceNotation.liveCount dice) :
    Sliced values { w with lo := w.lo + k } (dropDice false k dice) := by
  have number := h.liveCount
  obtain ⟨low, ordered, high⟩ := h.fits
  have start : (w.lo + k).toNat = w.lo.toNat + k := by omega
  refine ⟨⟨?_, ?_, high⟩, ?_⟩
  · dsimp only
    omega
  · dsimp only
    omega
  · rw [sortedValues_dropLow enough, h.shown, Window.slice, Window.slice, start,
      List.extract_eq_take_drop, List.extract_eq_take_drop, List.drop_take, List.drop_drop,
      Nat.sub_sub]

theorem dropHigh (h : Sliced values w dice) {k : Nat} (enough : k ≤ DiceNotation.liveCount dice) :
    Sliced values { w with hi := w.hi - k } (dropDice true k dice) := by
  have number := h.liveCount
  obtain ⟨low, ordered, high⟩ := h.fits
  have fewer : min (DiceNotation.liveCount dice - k) (w.hi.toNat - w.lo.toNat) =
      (w.hi - k).toNat - w.lo.toNat := by omega
  refine ⟨⟨low, ?_, ?_⟩, ?_⟩
  · dsimp only
    omega
  · dsimp only
    omega
  · rw [sortedValues_dropHigh enough, h.shown, Window.slice, Window.slice,
      List.extract_eq_take_drop, List.extract_eq_take_drop, List.take_take, fewer]

theorem select (h : Sliced values w dice) (kind : ModifierKind) (n : Int) :
    Sliced values (w.select kind n) (DiceNotation.select kind n dice) := by
  have number := h.liveCount
  have clamped : clampCount n dice ≤ DiceNotation.liveCount dice := Nat.min_le_right _ _
  have count : (clampCount n dice : Int) = max 0 (min n (w.hi - w.lo)) := by
    rw [clampCount_eq, selectedCount, number]
  have rest : ((DiceNotation.liveCount dice - clampCount n dice : Nat) : Int) =
      w.hi - w.lo - max 0 (min n (w.hi - w.lo)) := by
    rw [Int.ofNat_sub clamped, number, count]
  cases kind with
  | dropHigh =>
    have cut := h.dropHigh clamped
    rwa [count] at cut
  | dropLow =>
    have cut := h.dropLow clamped
    rwa [count] at cut
  | keepHigh =>
    have cut := h.dropLow (Nat.sub_le (DiceNotation.liveCount dice) (clampCount n dice))
    have start : w.lo + (w.hi - w.lo - max 0 (min n (w.hi - w.lo))) =
        w.hi - max 0 (min n (w.hi - w.lo)) := by omega
    rwa [rest, start] at cut
  | keepLow =>
    have cut := h.dropHigh (Nat.sub_le (DiceNotation.liveCount dice) (clampCount n dice))
    have stop : w.hi - (w.hi - w.lo - max 0 (min n (w.hi - w.lo))) =
        w.lo + max 0 (min n (w.hi - w.lo)) := by omega
    rwa [rest, stop] at cut
  | explode => exact h
  | explodeAll => exact h
  | reroll => exact h
  | rerollAll => exact h

end Sliced

variable {σ : Type} [Source σ]

theorem Modifier.run_selection (limits : Limits) (sides : Option Int) {m : Modifier}
    (stage : m.kind.stage = .selection) (dice : List Die) :
    (m.run limits sides dice : Rolling σ (List Die)) =
      m.value.elim (throw (.missingValue m.kind)) fun n => pure (select m.kind n dice) := by
  unfold run
  simp only [stage]
  cases m.value <;> rfl

/-- Any list of selections, several of a kind among them, draws nothing and leaves a slice. -/
theorem foldlM_run_sliced (limits : Limits) (sides : Option Int) {modifiers : List Modifier}
    (selects : ∀ m ∈ modifiers, m.kind.stage = .selection ∧ m.value.isSome = true)
    {values : List Int} {w : Window} {dice : List Die} (sliced : Sliced values w dice) :
    ∃ result, Sliced values (w.selectAll modifiers) result ∧
      (modifiers.foldlM (Modifier.run limits sides) dice : Rolling σ (List Die)) = pure result := by
  induction modifiers generalizing w dice with
  | nil => exact ⟨dice, sliced, rfl⟩
  | cons m modifiers ih =>
    rw [List.forall_mem_cons] at selects
    obtain ⟨⟨stage, valued⟩, others⟩ := selects
    obtain ⟨n, value⟩ := Option.isSome_iff_exists.mp valued
    obtain ⟨result, shown, ran⟩ := ih others (sliced.select m.kind n)
    refine ⟨result, ?_, ?_⟩
    · rwa [Window.selectAll, List.foldl_cons, value]
    · rw [List.foldlM_cons, m.run_selection limits sides stage, value, Option.elim_some, pure_bind,
        ran]

theorem Total.ofDice_perm (scoring : Option Scoring) {dice other : List Die}
    (same : (liveValues dice).Perm (liveValues other)) :
    Total.ofDice scoring dice = Total.ofDice scoring other := by
  cases scoring with
  | none => exact congrArg (fun n => Total.value (.ofInt n)) same.sum_eq
  | some s => exact congrArg Total.success (same.map s.score).sum_eq

/-- The selection stage leaves a slice of the sorted values, and the slice depends on the number of
live dice only. So it does not matter in which order the faces came: the same values are left, and
they amount to the same total. -/
theorem Stage.selection_slices (limits : Limits) (t : DiceTerm)
    (valued : ∀ m ∈ Stage.selection.select t.modifiers, m.value.isSome = true) (dice : List Die)
    (s : σ) :
    ∃ result, (Stage.selection.run limits t dice : Rolling σ (List Die)).run s = (.ok result, s) ∧
      Sliced (sortedValues dice)
        (Window.selectAll (.whole (liveCount dice)) (Stage.selection.select t.modifiers)) result ∧
      ∀ other, (liveValues other).Perm (liveValues dice) → ∃ rest,
        (Stage.selection.run limits t other : Rolling σ (List Die)).run s = (.ok rest, s) ∧
          (liveValues rest).Perm (liveValues result) ∧
          Total.ofDice t.scoring rest = Total.ofDice t.scoring result := by
  have selects : ∀ m ∈ Stage.selection.select t.modifiers,
      m.kind.stage = .selection ∧ m.value.isSome = true :=
    fun m member => ⟨kind_of_mem_select member, valued m member⟩
  obtain ⟨result, sliced, ran⟩ := foldlM_run_sliced (σ := σ) limits t.sides selects (.start dice)
  refine ⟨result, congrArg (fun m => m.run s) ran, sliced, ?_⟩
  intro other permuted
  obtain ⟨rest, slicedRest, ranRest⟩ :=
    foldlM_run_sliced (σ := σ) limits t.sides selects (.start other)
  have values : sortedValues other = sortedValues dice :=
    sortedValues_eq (sortedValues_sorted other) ((sortedValues_perm other).trans permuted)
  have sorted : sortedValues rest = sortedValues result := by
    rw [sliced.shown, slicedRest.shown, values, ← length_sortedValues, ← length_sortedValues,
      values]
  have same : (liveValues rest).Perm (liveValues result) :=
    (sortedValues_perm rest).symm.trans (sorted ▸ sortedValues_perm result)
  exact ⟨rest, congrArg (fun m => m.run s) ranRest, same, Total.ofDice_perm t.scoring same⟩

/-- Of the values 1 2 2 5 5 5 the ranks from 1 up to 4 are left, in whatever order the dice came. A
die that was rerolled has no rank. -/
theorem tied_fives_sliced :
    let t : DiceTerm := ⟨6, some 6, [⟨.dropHigh, some 1⟩, ⟨.keepLow, some 4⟩, ⟨.dropLow, some 1⟩,
      ⟨.keepHigh, some 9⟩], none, "6d6 D1 k4 d1 K9"⟩
    let dice : List Die := [{ value := 5 }, { value := 2 }, { value := 6, rerolled := true },
      { value := 5 }, { value := 1 }, { value := 5 }, { value := 2 }]
    ∃ result rest,
      (Stage.selection.run {} t dice).run (Script.ofList [] false) =
        (.ok result, Script.ofList [] false) ∧
      Sliced [1, 2, 2, 5, 5, 5] ⟨1, 4⟩ result ∧ sortedValues result = [2, 2, 5] ∧
      (Stage.selection.run {} t dice.reverse).run (Script.ofList [] false) =
        (.ok rest, Script.ofList [] false) ∧
      (liveValues rest).Perm (liveValues result) ∧
      Total.ofDice t.scoring rest = .value (.ofInt 9) := by
  intro t dice
  have valued : ∀ m ∈ Stage.selection.select t.modifiers, m.value.isSome = true := by decide
  obtain ⟨result, ran, sliced, others⟩ :=
    Stage.selection_slices {} t valued dice (Script.ofList [] false)
  have sorted : sortedValues dice = [1, 2, 2, 5, 5, 5] := by cbv
  have window : Window.selectAll (.whole (liveCount dice)) (Stage.selection.select t.modifiers) =
      ⟨1, 4⟩ := by decide
  rw [sorted, window] at sliced
  obtain ⟨rest, ranRest, same, total⟩ := others dice.reverse (by decide)
  refine ⟨result, rest, ran, sliced, sliced.shown, ranRest, same, ?_⟩
  have nine : (liveValues result).sum = 9 := by
    rw [← (sortedValues_perm result).sum_eq, sliced.shown]
    rfl
  rw [total]
  exact congrArg (fun n => Total.value (.ofInt n)) nine

end DiceNotation
