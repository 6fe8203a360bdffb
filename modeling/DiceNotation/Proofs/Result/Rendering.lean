import DiceNotation.Proofs.Dice.Replay
import DiceNotation.Proofs.Except
import DiceNotation.Proofs.Roll.History
import DiceNotation.Result.Text

/-!
A result can be shown to a reader if its dice show faces that they have: of all that is shown, only
the faces of fudge dice are looked up.
-/
namespace DiceNotation

def Die.InRange (sides : Option Int) (d : Die) : Prop :=
  match sides with
  | none => -1 ≤ d.value ∧ d.value ≤ 1
  | some n => 1 ≤ d.value ∧ d.value ≤ n

theorem Die.inRange_of_draw {sides : Option Int} {d : Die} (h : (d.draw sides).Possible) :
    d.InRange sides := by
  obtain ⟨_, low, high⟩ := h
  cases sides with
  | none =>
    change 1 ≤ d.value + 2 at low
    change d.value + 2 ≤ 3 at high
    exact ⟨by omega, by omega⟩
  | some n => exact ⟨low, high⟩

def RolledTerm.InRange (r : RolledTerm) : Prop := ∀ d ∈ r.dice, d.InRange r.sides

def Result.terms : Result → List RolledTerm
  | single r => rolledTerms r.history
  | repeated r => r.rolls.flatMap fun roll => rolledTerms roll.history

def Shows {α : Type} (x : Except FaceError α) : Prop := ∃ a, x = .ok a

namespace Shows

variable {α β : Type}

theorem ok (a : α) : Shows (.ok a) := ⟨a, rfl⟩

theorem bind {x : Except FaceError α} {f : α → Except FaceError β} (h : Shows x)
    (next : ∀ a, Shows (f a)) : Shows (x >>= f) := by
  obtain ⟨a, rfl⟩ := h
  exact next a

theorem mapM {f : α → Except FaceError β} {xs : List α} (each : ∀ x ∈ xs, Shows (f x)) :
    Shows (xs.mapM f) :=
  exists_mapM_eq_ok each

end Shows

theorem fudgeFace_shows {value : Int} (low : -1 ≤ value) (high : value ≤ 1) :
    Shows (fudgeFace value) := by
  have faces : value = -1 ∨ value = 0 ∨ value = 1 := by omega
  rcases faces with rfl | rfl | rfl <;> exact .ok _

theorem Die.shown_shows {sides : Option Int} {d : Die} (h : d.InRange sides) (markdown : Bool) :
    Shows (d.shown sides.isNone markdown) := by
  have face : Shows (d.face sides.isNone markdown) := by
    cases sides with
    | none => exact fudgeFace_shows h.1 h.2
    | some n => exact .ok _
  exact face.bind fun _ => .ok _

theorem historyText_shows {history : List HistoryItem}
    (h : ∀ term ∈ rolledTerms history, term.InRange) (markdown : Bool) :
    Shows (historyText history markdown) := by
  have items : Shows (history.mapM (HistoryItem.shown markdown)) := by
    apply Shows.mapM
    intro item member
    cases item with
    | roll term =>
      have inRange := h term (List.mem_filterMap.mpr ⟨_, member, rfl⟩)
      have dice : Shows (term.dice.mapM fun d => d.shown term.sides.isNone markdown) :=
        Shows.mapM fun d inside => Die.shown_shows (inRange d inside) markdown
      exact dice.bind fun _ => .ok _
    | value d => exact .ok _
    | operator op => exact .ok _
    | paren p => exact .ok _
  exact items.bind fun _ => .ok _

theorem SingleResult.line_shows {r : SingleResult}
    (h : ∀ term ∈ rolledTerms r.history, term.InRange) (markdown : Bool) :
    Shows (r.line markdown) :=
  (historyText_shows h markdown).bind fun _ => .ok _

theorem Result.render_shows {result : Result} (h : ∀ term ∈ result.terms, term.InRange)
    (markdown : Bool) : Shows (result.render markdown) := by
  cases result with
  | single r => exact (SingleResult.line_shows h markdown).bind fun _ => .ok _
  | repeated r =>
    have lines : Shows (r.rolls.mapM fun roll => roll.line markdown) := by
      apply Shows.mapM
      intro roll member
      apply SingleResult.line_shows
      intro term inside
      exact h term (List.mem_flatMap.mpr ⟨roll, member, inside⟩)
    exact lines.bind fun _ => .ok _

end DiceNotation
