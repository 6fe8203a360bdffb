import DiceNotation.Proofs.Command.WellFormed
import DiceNotation.Proofs.Decimal.Value
import DiceNotation.Proofs.Dice.Replay
import DiceNotation.Roll.Roller
import Mathlib

/-!
A result tells every die that was drawn for it. Rolled on a script of the faces of a result, the
command has this result again, and any shorter script runs out.
-/
namespace DiceNotation

def HistoryItem.draws : HistoryItem → List Draw
  | roll term => term.draws
  | _ => []

def historyDraws (history : List HistoryItem) : List Draw := history.flatMap HistoryItem.draws

def SingleResult.draws (r : SingleResult) : List Draw := historyDraws r.history

def Result.draws : Result → List Draw
  | single r => r.draws
  | repeated r => r.rolls.flatMap SingleResult.draws

/-- The faces of a result: the values of its dice, and those of fudge dice plus two. -/
def Result.faces (r : Result) : List Int := r.draws.map Draw.face

def Body.sorts : Body → Bool
  | once _ => false
  | repeated r => r.mode = .sort

def Sided (terms : List DiceTerm) : Prop := ∀ t ∈ terms, ∀ n, t.sides = some n → 1 ≤ n

theorem drawsOf_sides {sides : Option Int} (h : ∀ n, sides = some n → 1 ≤ n) (dice : List Die) :
    ∀ d ∈ drawsOf sides dice, 1 ≤ d.sides := by
  intro d member
  obtain ⟨die, _, rfl⟩ := List.mem_map.mp member
  cases sides with
  | none => simp [Die.draw]
  | some n => exact h n rfl

variable {σ τ α : Type} [Source σ] [Source τ]

theorem combine_follows (op : Operator) (left right : Decimal) :
    Follows (combine op left right : Rolling σ Decimal) (combine op left right : Rolling τ Decimal)
      fun draws _ => draws = [] := by
  unfold combine
  cases op.apply left right with
  | ok value => exact Follows.pure rfl
  | error e => exact Follows.throw

/-- The draws are those of the history, and they are for the dice of the expression. -/
def Drawn (e : Expression) (draws : List Draw) (history : List HistoryItem) : Prop :=
  draws = historyDraws history ∧ (Sided e.diceTerms → ∀ d ∈ draws, 1 ≤ d.sides)

theorem Expression.evaluate_follows (limits : Limits) (e : Expression) :
    Follows (e.evaluate limits : Rolling σ Evaluation) (e.evaluate limits : Rolling τ Evaluation)
      fun draws result => Drawn e draws result.history := by
  induction e with
  | dice term =>
    refine (term.roll_follows limits).bind ?_
    rintro ⟨rolled, total⟩ _ ⟨rfl, sides⟩ _
    refine Follows.pure ⟨by simp [historyDraws, HistoryItem.draws], ?_⟩
    intro sided
    rw [List.append_nil]
    refine drawsOf_sides ?_ rolled.dice
    intro n eq
    exact sided term (by simp [Expression.diceTerms]) n (sides ▸ eq)
  | integer value => exact Follows.pure ⟨rfl, by simp⟩
  | float value => exact Follows.pure ⟨rfl, by simp⟩
  | group inner ih =>
    refine ih.bind ?_
    rintro ⟨value, history, successes⟩ draws ⟨same, sided⟩ _
    refine Follows.pure ⟨?_, by simpa [Expression.diceTerms] using sided⟩
    simp [same, historyDraws, HistoryItem.draws]
  | binary op left right ihLeft ihRight =>
    refine ihLeft.bind ?_
    rintro l draws ⟨sameL, sidedL⟩ _
    refine ihRight.bind ?_
    rintro r more ⟨sameR, sidedR⟩ _
    refine (combine_follows op l.value r.value).bind ?_
    rintro value _ rfl _
    refine Follows.pure ⟨?_, ?_⟩
    · simp [sameL, sameR, historyDraws, HistoryItem.draws]
    · intro sided d member
      simp only [List.append_nil, List.mem_append] at member
      rcases member with old | new
      · exact sidedL (fun t mem => sided t (by simp [Expression.diceTerms, mem])) d old
      · exact sidedR (fun t mem => sided t (by simp [Expression.diceTerms, mem])) d new

theorem Expression.roll_follows (limits : Limits) (e : Expression) (text : String) :
    Follows (e.roll limits text : Rolling σ SingleResult)
      (e.roll limits text : Rolling τ SingleResult)
      fun draws result => Drawn e draws result.history := by
  refine (e.evaluate_follows limits).bind ?_
  intro evaluation draws drawn _
  exact Follows.pure (by simpa using drawn)

theorem rollTimes_follows (limits : Limits) (e : Expression) (text : String) (n : Nat) :
    Follows (rollTimes limits e text n : Rolling σ (List SingleResult))
      (rollTimes limits e text n : Rolling τ (List SingleResult))
      fun draws rolls => draws = rolls.flatMap SingleResult.draws ∧ rolls.length = n ∧
        (Sided e.diceTerms → ∀ d ∈ draws, 1 ≤ d.sides) ∧
        ∀ r ∈ rolls, Plays (e.roll limits text : Rolling τ SingleResult) r.draws r := by
  induction n with
  | zero => exact Follows.pure (by simp)
  | succ n ih =>
    refine (e.roll_follows limits text).bind ?_
    rintro first draws ⟨same, sidedFirst⟩ playsFirst
    have here : draws = first.draws := same
    refine ih.bind ?_
    rintro rest more ⟨rfl, length, sidedRest, playsRest⟩ _
    refine Follows.pure ⟨by simp [here], by simp [length], ?_, ?_⟩
    · intro sided d member
      simp only [List.append_nil, List.mem_append] at member
      rcases member with old | new
      · exact sidedFirst sided d old
      · exact sidedRest sided d new
    · intro r member
      rcases List.mem_cons.mp member with rfl | member
      · exact here ▸ playsFirst
      · exact playsRest r member

/-- Iterations that can each be played can be played one after the other, in any order. -/
theorem rollTimes_plays (limits : Limits) (e : Expression) (text : String)
    (rolls : List SingleResult)
    (h : ∀ r ∈ rolls, Plays (e.roll limits text : Rolling τ SingleResult) r.draws r) :
    Plays (rollTimes limits e text rolls.length : Rolling τ (List SingleResult))
      (rolls.flatMap SingleResult.draws) rolls := by
  induction rolls with
  | nil => exact Plays.pure []
  | cons r rolls ih =>
    have rest := ih fun x mem => h x (List.mem_cons_of_mem r mem)
    have last := rest.bind (f := fun rest => pure (r :: rest)) (Plays.pure (r :: rolls))
    rw [List.append_nil] at last
    exact (h r (by simp)).bind last

theorem sortByTotal_perm (rolls : List SingleResult) : (sortByTotal rolls).Perm rolls :=
  List.mergeSort_perm rolls _

theorem sortByTotal_idem (rolls : List SingleResult) :
    sortByTotal (sortByTotal rolls) = sortByTotal rolls := by
  refine List.mergeSort_of_pairwise (List.pairwise_mergeSort ?_ ?_ rolls)
  · intro a b c
    exact Decimal.trans_le
  · intro a b
    exact Decimal.total_le a.total.amount b.total.amount

theorem Repetition.roll_replays (limits : Limits) (r : Repetition) {s last : σ}
    {result : RepeatedResult}
    (rolled : (r.roll limits : Rolling σ RepeatedResult).run s = (.ok result, last)) :
    ∃ draws, Answers s draws last ∧ draws.Perm (result.rolls.flatMap SingleResult.draws) ∧
      (r.mode ≠ .sort → draws = result.rolls.flatMap SingleResult.draws) ∧
      (Sided r.inner.diceTerms → ∀ d ∈ draws, 1 ≤ d.sides) ∧
      Plays (r.roll limits : Rolling τ RepeatedResult)
        (result.rolls.flatMap SingleResult.draws) result := by
  obtain ⟨rolls, now, run, finish⟩ := run_bind_eq_ok rolled
  obtain ⟨draws, answers, ⟨rfl, length, sided, each⟩, plays⟩ :=
    rollTimes_follows (τ := τ) limits r.inner r.text r.times.toNat run
  unfold Repetition.roll
  cases mode : r.mode with
  | plain =>
    rw [mode] at finish
    obtain ⟨rfl, rfl⟩ := run_pure_eq_ok finish
    refine ⟨_, answers, .refl _, fun _ => rfl, sided, ?_⟩
    rw [← List.append_nil (List.flatMap _ _)]
    exact plays.bind (Plays.pure _)
  | sum =>
    rw [mode] at finish
    cases sum : sumOfTotals? rolls with
    | none =>
      simp only [sum] at finish
      exact absurd finish run_throw_ne_ok
    | some total =>
      simp only [sum] at finish
      obtain ⟨rfl, rfl⟩ := run_pure_eq_ok finish
      refine ⟨_, answers, .refl _, fun _ => rfl, sided, ?_⟩
      rw [← List.append_nil (List.flatMap _ _)]
      refine plays.bind ?_
      simp only [sum]
      exact Plays.pure _
  | sort =>
    rw [mode] at finish
    obtain ⟨rfl, rfl⟩ := run_pure_eq_ok finish
    have perm := sortByTotal_perm rolls
    have sortedPlays := rollTimes_plays limits r.inner r.text (sortByTotal rolls)
      fun x mem => each x (perm.mem_iff.mp mem)
    rw [perm.length_eq, length] at sortedPlays
    refine ⟨_, answers, (perm.flatMap_right _).symm, by simp, sided, ?_⟩
    rw [← List.append_nil (List.flatMap _ _)]
    refine sortedPlays.bind ?_
    simp only [sortByTotal_idem]
    exact Plays.pure _

theorem draws_withReason (reason : Option String) (result : Result) :
    (result.withReason reason).draws = result.draws := by
  cases result <;> rfl

theorem Roller.roll_replays (roller : Roller) {s last : σ} {result : Result}
    (rolled : (roller.roll : Rolling σ Result).run s = (.ok result, last)) :
    ∃ draws, Answers s draws last ∧ draws.Perm result.draws ∧
      (roller.command.body.sorts = false → draws = result.draws) ∧
      (Sided roller.command.diceTerms → ∀ d ∈ draws, 1 ≤ d.sides) ∧
      Plays (roller.roll : Rolling τ Result) result.draws result := by
  unfold Roller.roll at rolled ⊢
  rw [Command.diceTerms]
  cases body : roller.command.body with
  | once e =>
    rw [body] at rolled
    obtain ⟨single, now, run, finish⟩ := run_bind_eq_ok rolled
    obtain ⟨rfl, rfl⟩ := run_pure_eq_ok finish
    obtain ⟨draws, answers, ⟨rfl, sided⟩, plays⟩ := e.roll_follows (τ := τ) _ _ run
    rw [draws_withReason]
    refine ⟨_, answers, .refl _, fun _ => rfl, sided, ?_⟩
    rw [← List.append_nil (Result.draws _)]
    exact plays.bind (Plays.pure _)
  | repeated repetition =>
    rw [body] at rolled
    obtain ⟨result, now, run, finish⟩ := run_bind_eq_ok rolled
    obtain ⟨rfl, rfl⟩ := run_pure_eq_ok finish
    obtain ⟨draws, answers, perm, inOrder, sided, plays⟩ :=
      repetition.roll_replays (τ := τ) _ run
    rw [draws_withReason]
    refine ⟨draws, answers, perm, ?_, sided, ?_⟩
    · intro unsorted
      exact inOrder (by simpa [Body.sorts] using unsorted)
    · rw [← List.append_nil (Result.draws _)]
      exact plays.bind (Plays.pure _)

theorem Plays.script {m : Rolling Script α} {draws : List Draw} {a : α} (h : Plays m draws a)
    (possible : ∀ d ∈ draws, d.Possible) :
    m.run (Script.ofList (draws.map Draw.face) false) =
      (.ok a, ⟨draws.map Draw.face, [], false, draws.length⟩) := by
  refine h.finishes ?_
  simpa [Script.ofList] using Script.answers possible (draws.map Draw.face) [] 0

theorem Plays.shorterScript {m : Rolling Script α} {draws : List Draw} {a : α}
    (h : Plays m draws a) (possible : ∀ d ∈ draws, d.Possible) {faces : List Int}
    (shorter : faces <+: draws.map Draw.face) (proper : faces ≠ draws.map Draw.face) :
    m.run (Script.ofList faces false) =
      (.error (.draw (.exhausted faces.length)), ⟨faces, [], false, faces.length⟩) := by
  obtain ⟨others, whole⟩ := shorter
  obtain ⟨before, rest, rfl, rfl, rfl⟩ := List.map_eq_append_iff.mp whole.symm
  cases rest with
  | nil => simp at proper
  | cons d after =>
    have answers := Script.answers (fun x mem => possible x (List.mem_append_left _ mem))
      (before.map Draw.face) [] 0
    simp only [List.append_nil, Nat.zero_add] at answers
    have refused := Script.exhausted (before.map Draw.face) before.length d.sides
    simpa [Script.ofList] using h.breaks rfl answers refused

theorem Expression.sided_of_wellFormed {limits : Limits} {e : Expression}
    (h : e.WellFormed limits) : Sided e.diceTerms := by
  induction e with
  | dice term =>
    intro t member n eq
    obtain rfl : t = term := by simpa [diceTerms] using member
    exact (h.sides n eq).1
  | integer value => simp [Sided, diceTerms]
  | float value => simp [Sided, diceTerms]
  | group inner ih => exact ih h
  | binary op left right ih ihRight =>
    intro t member
    rcases List.mem_append.mp member with left | right
    · exact ih h.1 t left
    · exact ihRight h.2.1 t right

theorem Command.sided_of_wellFormed {limits : Limits} {c : Command} (h : c.WellFormed limits) :
    Sided c.diceTerms := by
  have body := h.body
  unfold diceTerms Body.diceTerms
  cases eq : c.body with
  | once e =>
    rw [eq] at body
    exact Expression.sided_of_wellFormed body
  | repeated r =>
    rw [eq] at body
    exact Expression.sided_of_wellFormed body.1

/-- A result tells its dice. If the iterations are not sorted, the source was asked for the dice
of the result, in their order, and answered their faces. Rolled on a script of the faces of the
result, the command has this result again and uses up all of them, and on fewer faces it fails when
they are used up. -/
theorem Roller.roll_replay {σ : Type} [Source σ] {text : String} {limits : Limits} {roller : Roller}
    (built : Command.parse text limits = .ok roller.command) {s last : σ} (fair : Fair s)
    {result : Result} (rolled : (roller.roll : Rolling σ Result).run s = (.ok result, last)) :
    (roller.command.body.sorts = false →
      Answers s result.draws last ∧
        (roller.roll : Rolling (Recorder σ) Result).run ⟨s, []⟩ =
          (.ok result, ⟨last, result.draws.map Draw.request⟩)) ∧
    (roller.roll : Rolling Script Result).run (Script.ofList result.faces false) =
      (.ok result, ⟨result.faces, [], false, result.faces.length⟩) ∧
    ∀ faces, faces <+: result.faces → faces ≠ result.faces →
      (roller.roll : Rolling Script Result).run (Script.ofList faces false) =
        (.error (.draw (.exhausted faces.length)), ⟨faces, [], false, faces.length⟩) := by
  have sided := Command.sided_of_wellFormed (Command.parse_wellFormed built)
  obtain ⟨draws, answers, perm, _, sides, plays⟩ := roller.roll_replays (τ := Script) rolled
  have possible : ∀ d ∈ result.draws, d.Possible := by
    intro d member
    exact fair.possible answers (sides sided) d (perm.mem_iff.mpr member)
  refine ⟨?_, ?_, ?_⟩
  · intro unsorted
    obtain ⟨asked, asks, _, inOrder, _, records⟩ := roller.roll_replays (τ := Recorder σ) rolled
    obtain rfl := inOrder unsorted
    exact ⟨asks, records.finishes (Recorder.answers asks [])⟩
  · rw [Result.faces, List.length_map]
    exact plays.script possible
  · intro faces shorter proper
    exact plays.shorterScript possible shorter proper

theorem exploding_dice_replay :
    ∃ (roller : Roller) (result : Result) (last : Congruential),
      Command.parse "2d6e" {} = .ok roller.command ∧
      (roller.roll : Rolling Congruential Result).run (.ofSeed 2) = (.ok result, last) ∧
      result.faces = [4, 6, 6] ∧
      (roller.roll : Rolling Script Result).run (Script.ofList result.faces false) =
        (.ok result, ⟨result.faces, [], false, result.faces.length⟩) := by
  obtain ⟨roller, shown⟩ : ∃ roller : Roller, roller = ⟨"2d6e",
      ⟨.once (.dice ⟨2, some 6, [⟨.explode, none⟩], none, "2d6e"⟩), none, "2d6e"⟩, {}⟩ := ⟨_, rfl⟩
  obtain ⟨result, dice⟩ : ∃ result : Result, result = .single ⟨"2d6e", [.roll ⟨"2d6e", some 6,
    [⟨4, .initial, false, false, false, .none⟩, ⟨6, .initial, false, false, true, .highest⟩,
     ⟨6, .explosion, false, false, false, .highest⟩]⟩], .value ⟨false, 16, 0⟩, none⟩ := ⟨_, rfl⟩
  have built : Command.parse "2d6e" {} = .ok roller.command := by
    rw [shown]
    cbv
  have rolled : (roller.roll : Rolling Congruential Result).run (.ofSeed 2) =
      (.ok result, ⟨671064393, [6, 6, 6]⟩) := by
    rw [shown, dice]
    cbv
  have faces : result.faces = [4, 6, 6] := by
    rw [dice]
    cbv
  have replay := Roller.roll_replay built (Congruential.fair _) rolled
  exact ⟨roller, result, _, built, rolled, faces, replay.2.1⟩

end DiceNotation
