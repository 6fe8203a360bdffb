import DiceNotation.Proofs.Dice.OrderStatistics
import DiceNotation.Proofs.Roll.Reference
import Mathlib

/-!
Higher faces never lower a total. Other dice may be selected when faces are raised, but they have
the same ranks as before, and each rank shows a value that is no lower; what a value is worth grows
with it as long as only thresholds count.
-/
namespace DiceNotation

theorem orderedInsert_of_sorted {x : Int} {xs : List Int} (sorted : (x :: xs).Pairwise (· ≤ ·)) :
    xs.orderedInsert (· ≤ ·) x = x :: xs := by
  cases xs with
  | nil => rfl
  | cons y xs =>
    have least : x ≤ y := List.rel_of_pairwise_cons sorted List.mem_cons_self
    exact List.orderedInsert_cons_of_le _ _ least

theorem forall₂_orderedInsert {a b : Int} (raised : a ≤ b) {xs ys : List Int}
    (each : List.Forall₂ (· ≤ ·) xs ys) (sorted : xs.Pairwise (· ≤ ·))
    (sortedRaised : ys.Pairwise (· ≤ ·)) :
    List.Forall₂ (· ≤ ·) (xs.orderedInsert (· ≤ ·) a) (ys.orderedInsert (· ≤ ·) b) := by
  induction each generalizing a b with
  | nil => exact .cons raised .nil
  | @cons x y xs ys le rest ih =>
    have later {c d : Int} (h : c ≤ d) := ih h sorted.of_cons sortedRaised.of_cons
    by_cases first : a ≤ x <;> by_cases firstRaised : b ≤ y
    · rw [List.orderedInsert_cons_of_le _ _ first, List.orderedInsert_cons_of_le _ _ firstRaised]
      exact .cons raised (.cons le rest)
    · -- `b` goes further than `a`: in between, `x` stands where it would be put beside `b`
      have moved := later (show x ≤ b by omega)
      rw [orderedInsert_of_sorted sorted] at moved
      rw [List.orderedInsert_cons_of_le _ _ first, List.orderedInsert_of_not_le _ _ firstRaised]
      exact .cons (by omega) moved
    · have moved := later (show a ≤ y by omega)
      rw [orderedInsert_of_sorted sortedRaised] at moved
      rw [List.orderedInsert_of_not_le _ _ first, List.orderedInsert_cons_of_le _ _ firstRaised]
      exact .cons (by omega) moved
    · rw [List.orderedInsert_of_not_le _ _ first, List.orderedInsert_of_not_le _ _ firstRaised]
      exact .cons le (later raised)

theorem forall₂_insertionSort {xs ys : List Int} (each : List.Forall₂ (· ≤ ·) xs ys) :
    List.Forall₂ (· ≤ ·) (xs.insertionSort (· ≤ ·)) (ys.insertionSort (· ≤ ·)) := by
  induction each with
  | nil => exact .nil
  | cons le rest ih =>
    exact forall₂_orderedInsert le ih (List.pairwise_insertionSort _ _)
      (List.pairwise_insertionSort _ _)

theorem sortedValues_insertion (dice : List Die) :
    (liveValues dice).insertionSort (· ≤ ·) = sortedValues dice :=
  sortedValues_eq (List.pairwise_insertionSort _ _) (List.perm_insertionSort _ _)

theorem sortedValues_raised {dice raised : List Die}
    (each : List.Forall₂ (· ≤ ·) (liveValues dice) (liveValues raised)) :
    List.Forall₂ (· ≤ ·) (sortedValues dice) (sortedValues raised) := by
  rw [← sortedValues_insertion, ← sortedValues_insertion]
  exact forall₂_insertionSort each

theorem Window.slice_raised (w : Window) {xs ys : List Int}
    (each : List.Forall₂ (· ≤ ·) xs ys) : List.Forall₂ (· ≤ ·) (w.slice xs) (w.slice ys) := by
  rw [slice, slice, List.extract_eq_take_drop, List.extract_eq_take_drop]
  exact List.forall₂_take _ (List.forall₂_drop _ each)

def worth (scoring : Option Scoring) (value : Int) : Int :=
  scoring.elim value fun s => s.score value

theorem diceTotal_sorted (scoring : Option Scoring) (dice : List Die) :
    diceTotal scoring dice = ((sortedValues dice).map (worth scoring)).sum := by
  have sorted := ((sortedValues_perm dice).map (worth scoring)).sum_eq
  rw [sorted]
  cases scoring with
  | none => exact congrArg List.sum (List.map_id (liveValues dice)).symm
  | some s => rfl

namespace Scoring

theorem successes_mono {s : Scoring} (unlisted : s.targetValues = none) {v w : Int} (h : v ≤ w) :
    s.successes v ≤ s.successes w := by
  obtain ⟨target, values, double, failure⟩ := s
  obtain rfl : values = none := unlisted
  have reached (threshold : Option Int) (met : threshold.any (· ≤ v) = true) :
      threshold.any (· ≤ w) = true := by
    cases threshold with
    | none => exact met
    | some n =>
      have low : n ≤ v := of_decide_eq_true met
      exact decide_eq_true (low.trans h)
  have doubled := reached double
  have single := reached target
  simp only [successes]
  grind

theorem fails_anti {s : Scoring} {v w : Int} (h : v ≤ w) (fails : s.fails w = true) :
    s.fails v = true := by
  unfold Scoring.fails at fails ⊢
  cases bound : s.failure with
  | none =>
    rw [bound] at fails
    exact fails
  | some n =>
    rw [bound] at fails
    have low : w ≤ n := of_decide_eq_true fails
    exact decide_eq_true (h.trans low)

theorem score_mono {s : Scoring} (unlisted : s.targetValues = none) {v w : Int} (h : v ≤ w) :
    s.score v ≤ s.score w := by
  have more := successes_mono unlisted h
  unfold score
  split_ifs with failed failedRaised failedRaised
  · omega
  · omega
  · exact absurd (fails_anti h failedRaised) failed
  · omega

end Scoring

theorem worth_mono {scoring : Option Scoring} (unlisted : ∀ s ∈ scoring, s.targetValues = none)
    {v w : Int} (h : v ≤ w) : worth scoring v ≤ worth scoring w := by
  cases scoring with
  | none => exact h
  | some s => exact Scoring.score_mono (unlisted s rfl) h

theorem diceTotal_mono {scoring : Option Scoring} (unlisted : ∀ s ∈ scoring, s.targetValues = none)
    {dice raised : List Die}
    (each : List.Forall₂ (· ≤ ·) (sortedValues dice) (sortedValues raised)) :
    diceTotal scoring dice ≤ diceTotal scoring raised := by
  rw [diceTotal_sorted, diceTotal_sorted]
  apply List.Forall₂.sum_le_sum
  rw [List.forall₂_map_left_iff, List.forall₂_map_right_iff]
  exact each.imp fun _ _ le => worth_mono unlisted le

def Die.showing (sides : Option Int) (face : Int) : Die :=
  match sides with
  | none => { value := face - 2 }
  | some sides => { value := face, extreme := extremeOf sides face }

def DiceTerm.drawsShowing (t : DiceTerm) (faces : List Int) : List Draw :=
  faces.map fun face => ⟨t.sides.getD 3, face⟩

variable {σ : Type} [Source σ]

theorem rollDie_showing {sides : Option Int} {face : Int} {s now : σ}
    (answer : Source.draw s (sides.getD 3) = (.ok face, now)) :
    (rollDie sides .initial : Rolling σ Die).run s = (.ok (.showing sides face), now) := by
  cases sides with
  | none => exact run_bind_of_ok (run_drawFace_of_ok answer)
  | some n => exact run_bind_of_ok (run_drawFace_of_ok answer)

theorem rollMany_showing {t : DiceTerm} {faces : List Int} {s last : σ}
    (answers : Answers s (t.drawsShowing faces) last) :
    (rollMany t.sides faces.length : Rolling σ (List Die)).run s =
      (.ok (faces.map (.showing t.sides)), last) := by
  induction faces generalizing s with
  | nil =>
    cases answers
    rfl
  | cons face faces ih =>
    cases answers with
    | cons answer rest =>
      rw [List.length_cons, rollMany, run_bind_of_ok (rollDie_showing answer),
        run_bind_of_ok (ih rest)]
      rfl

theorem liveValues_showing (sides : Option Int) (faces : List Int) :
    liveValues (faces.map (.showing sides)) =
      faces.map fun face => (Die.showing sides face).value := by
  have live : ∀ die ∈ faces.map (Die.showing sides), die.live = true := by
    rw [List.forall_mem_map]
    intro face _
    cases sides <;> rfl
  rw [liveValues, List.filter_eq_self.mpr live, List.map_map]
  rfl

theorem Die.showing_mono (sides : Option Int) {face higher : Int} (h : face ≤ higher) :
    (showing sides face).value ≤ (showing sides higher).value := by
  cases sides with
  | none =>
    change face - 2 ≤ higher - 2
    omega
  | some n => exact h

theorem Stage.run_of_selections {t : DiceTerm}
    (selects : ∀ m ∈ t.modifiers, m.kind.stage = .selection) (stage : Stage)
    (other : stage ≠ .selection) (limits : Limits) (dice : List Die) :
    (stage.run limits t dice : Rolling σ (List Die)) = pure dice := by
  have none : t.modifiers.filter (·.kind.stage = stage) = [] := by
    rw [List.filter_eq_nil_iff]
    intro m member same
    exact other ((of_decide_eq_true same).symm.trans (selects m member))
  rw [Stage.run, Stage.select, none]
  rfl

/-- Neither rerolled nor exploded, the dice go to the selection as they were rolled. -/
theorem DiceTerm.rollDice_showing {t : DiceTerm}
    (selects : ∀ m ∈ t.modifiers, m.kind.stage = .selection) (limits : Limits)
    {faces : List Int} (number : faces.length = t.count.toNat) {s last : σ}
    (answers : Answers s (t.drawsShowing faces) last) :
    (t.rollDice limits : Rolling σ (List Die)).run s =
      (Stage.selection.run limits t (faces.map (.showing t.sides)) : Rolling σ (List Die)).run
        last := by
  have rerolled := Stage.run_of_selections (σ := σ) selects .reroll nofun limits
  have exploded := Stage.run_of_selections (σ := σ) selects .explosion nofun limits
  rw [rollDice, ← number, run_bind_of_ok (rollMany_showing answers), rerolled, pure_bind,
    exploded, pure_bind]

/-- Without its number a selection fails, whatever the dice are. -/
theorem foldlM_run_missing (limits : Limits) (sides : Option Int) {modifiers : List Modifier}
    (selects : ∀ m ∈ modifiers, m.kind.stage = .selection)
    (missing : ¬ ∀ m ∈ modifiers, m.value.isSome = true) :
    ∃ m ∈ modifiers, m.value = none ∧ ∀ dice,
      (modifiers.foldlM (Modifier.run limits sides) dice : Rolling σ (List Die)) =
        throw (.missingValue m.kind) := by
  induction modifiers with
  | nil => exact absurd nofun missing
  | cons m modifiers ih =>
    rw [List.forall_mem_cons] at selects missing
    obtain ⟨stage, others⟩ := selects
    cases value : m.value with
    | none =>
      refine ⟨m, List.mem_cons_self, value, fun dice => ?_⟩
      rw [List.foldlM_cons, m.run_selection limits sides stage, value]
      rfl
    | some n =>
      rw [value] at missing
      obtain ⟨other, member, unvalued, stops⟩ := ih others fun all => missing ⟨rfl, all⟩
      refine ⟨other, List.mem_cons_of_mem m member, unvalued, fun dice => ?_⟩
      rw [List.foldlM_cons, m.run_selection limits sides stage, value, Option.elim_some, pure_bind]
      exact stops _

/-- If every face is raised or stays what it is, then the total of the term is raised or stays what
it is. The term has no rerolls, no explosions and no list of target values. There is no total only
if a selection has no number, and then there is none for either roll. -/
theorem DiceTerm.total_raised {t : DiceTerm}
    (selects : ∀ m ∈ t.modifiers, m.kind.stage = .selection)
    (unlisted : ∀ scoring ∈ t.scoring, scoring.targetValues = none) (limits : Limits)
    {faces higher : List Int} (number : faces.length = t.count.toNat)
    (raised : List.Forall₂ (· ≤ ·) faces higher) {s last s' last' : σ}
    (answers : Answers s (t.drawsShowing faces) last)
    (answersRaised : Answers s' (t.drawsShowing higher) last') :
    (∃ rolled total rolled' total',
      (t.roll limits : Rolling σ (RolledTerm × Total)).run s = (.ok (rolled, total), last) ∧
      (t.roll limits : Rolling σ (RolledTerm × Total)).run s' = (.ok (rolled', total'), last') ∧
      total.amount.toRat ≤ total'.amount.toRat) ∨
    ∃ m ∈ t.modifiers, m.value = none ∧
      (t.roll limits : Rolling σ (RolledTerm × Total)).run s =
        (.error (.missingValue m.kind), last) ∧
      (t.roll limits : Rolling σ (RolledTerm × Total)).run s' =
        (.error (.missingValue m.kind), last') := by
  have length := raised.length_eq
  have rolls := t.rollDice_showing selects limits number answers
  have rollsRaised := t.rollDice_showing selects limits (length ▸ number) answersRaised
  by_cases valued : ∀ m ∈ Stage.selection.select t.modifiers, m.value.isSome = true
  · left
    have effective : ∀ m ∈ Stage.selection.select t.modifiers,
        m.kind.stage = .selection ∧ m.value.isSome = true :=
      fun m member => ⟨Stage.kind_of_mem_select member, valued m member⟩
    obtain ⟨dice, sliced, ran⟩ := foldlM_run_sliced (σ := σ) limits t.sides effective
      (.start (faces.map (.showing t.sides)))
    obtain ⟨dice', sliced', ran'⟩ := foldlM_run_sliced (σ := σ) limits t.sides effective
      (.start (higher.map (.showing t.sides)))
    rw [Stage.run, ran] at rolls
    rw [Stage.run, ran'] at rollsRaised
    have faceValues : List.Forall₂ (· ≤ ·) (liveValues (faces.map (Die.showing t.sides)))
        (liveValues (higher.map (Die.showing t.sides))) := by
      rw [liveValues_showing, liveValues_showing, List.forall₂_map_left_iff,
        List.forall₂_map_right_iff]
      exact raised.imp fun _ _ le => Die.showing_mono t.sides le
    have ranks : List.Forall₂ (· ≤ ·) (sortedValues dice) (sortedValues dice') := by
      rw [sliced.shown, sliced'.shown, ← length_liveValues, ← length_liveValues,
        faceValues.length_eq]
      exact Window.slice_raised _ (sortedValues_raised faceValues)
    refine ⟨_, _, _, _, run_bind_of_ok rolls, run_bind_of_ok rollsRaised, ?_⟩
    rw [Total.amount_ofDice, Total.amount_ofDice, Decimal.toRat_ofInt, Decimal.toRat_ofInt]
    exact_mod_cast diceTotal_mono unlisted ranks
  · right
    obtain ⟨m, member, unvalued, stops⟩ := foldlM_run_missing (σ := σ) limits t.sides
      (fun m member => Stage.kind_of_mem_select member) valued
    rw [Stage.run, stops] at rolls rollsRaised
    exact ⟨m, Stage.mem_of_mem_select member, unvalued, run_bind_of_error rolls,
      run_bind_of_error rollsRaised⟩

/-- The face 1 becomes a 6: it was dropped as one of the lowest and is now dropped as the highest,
and the 5, which was dropped as the highest, is kept in place of the 2. The double target lies below
the target. -/
theorem raised_face_total :
    let t : DiceTerm := ⟨4, some 6, [⟨.dropHigh, some 1⟩, ⟨.keepHigh, some 2⟩],
      some ⟨some 4, none, some 3, some 2⟩, "4d6 D1 K2 t4 tt3 f2"⟩
    (∀ m ∈ t.modifiers, m.kind.stage = .selection) ∧
    (∀ scoring ∈ t.scoring, scoring.targetValues = none) ∧
    List.Forall₂ (· ≤ ·) [(4 : Int), 5, 1, 2] [4, 5, 6, 2] ∧
    ∃ rolled rolled',
      (t.roll {} : Rolling Script (RolledTerm × Total)).run (Script.ofList [4, 5, 1, 2] false) =
        (.ok (rolled, .success 1), ⟨[4, 5, 1, 2], [], false, 4⟩) ∧
      (t.roll {} : Rolling Script (RolledTerm × Total)).run (Script.ofList [4, 5, 6, 2] false) =
        (.ok (rolled', .success 4), ⟨[4, 5, 6, 2], [], false, 4⟩) ∧
      (Total.success 1).amount.toRat ≤ (Total.success 4).amount.toRat := by
  intro t
  have selects : ∀ m ∈ t.modifiers, m.kind.stage = .selection := by decide
  have unlisted : ∀ scoring ∈ t.scoring, scoring.targetValues = none := by simp [t]
  have raised : List.Forall₂ (· ≤ ·) [(4 : Int), 5, 1, 2] [4, 5, 6, 2] := by simp
  have answers (third : Int) (low : 1 ≤ third) (high : third ≤ 6) :
      Answers (Script.ofList [4, 5, third, 2] false) (t.drawsShowing [4, 5, third, 2])
        ⟨[4, 5, third, 2], [], false, 4⟩ := by
    have possible : ∀ d ∈ t.drawsShowing [4, 5, third, 2], d.Possible := by
      simp [DiceTerm.drawsShowing, Draw.Possible, t, low, high]
    exact Script.answers possible [4, 5, third, 2] [] 0
  have compared := t.total_raised selects unlisted {} rfl raised
    (answers 1 (by decide) (by decide)) (answers 6 (by decide) (by decide))
  rcases compared with ⟨_, _, _, _, ran, ran', le⟩ | ⟨m, member, missing, _⟩
  · have first : (t.roll {} : Rolling Script (RolledTerm × Total)).run
        (Script.ofList [4, 5, 1, 2] false) = (.ok (⟨t.text, some 6,
          [⟨4, .initial, false, false, false, .none⟩, ⟨5, .initial, true, false, false, .none⟩,
           ⟨1, .initial, true, false, false, .lowest⟩,
           ⟨2, .initial, false, false, false, .none⟩]⟩, .success 1),
          ⟨[4, 5, 1, 2], [], false, 4⟩) := by cbv
    have second : (t.roll {} : Rolling Script (RolledTerm × Total)).run
        (Script.ofList [4, 5, 6, 2] false) = (.ok (⟨t.text, some 6,
          [⟨4, .initial, false, false, false, .none⟩, ⟨5, .initial, false, false, false, .none⟩,
           ⟨6, .initial, true, false, false, .highest⟩,
           ⟨2, .initial, true, false, false, .none⟩]⟩, .success 4),
          ⟨[4, 5, 6, 2], [], false, 4⟩) := by cbv
    rw [first] at ran
    rw [second] at ran'
    cases ran
    cases ran'
    exact ⟨selects, unlisted, raised, _, _, first, second, le⟩
  · exact absurd missing ((by decide : ∀ m ∈ t.modifiers, m.value ≠ none) m member)

end DiceNotation
