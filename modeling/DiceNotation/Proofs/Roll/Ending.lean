import DiceNotation.Proofs.Roll.Draws

/-!
How a computation ends: what is known of its results, if it has any, and when it has none.
-/
namespace DiceNotation

variable {σ α β : Type}

structure Yields (m : Rolling σ α) (P : α → Prop) : Prop where
  result : ∀ {s last : σ} {a : α}, m.run s = (.ok a, last) → P a

namespace Yields

theorem pure {P : α → Prop} {a : α} (p : P a) : Yields (Pure.pure a : Rolling σ α) P := by
  constructor
  intro s last b run
  rw [← (run_pure_eq_ok run).1]
  exact p

theorem throw {P : α → Prop} {e : RollError} : Yields (MonadExcept.throw e : Rolling σ α) P := by
  constructor
  intro s last a run
  exact absurd run run_throw_ne_ok

theorem mono {m : Rolling σ α} {P Q : α → Prop} (h : Yields m P) (imp : ∀ a, P a → Q a) :
    Yields m Q := by
  constructor
  intro s last a run
  exact imp a (h.result run)

theorem and {m : Rolling σ α} {P Q : α → Prop} (h : Yields m P) (k : Yields m Q) :
    Yields m fun a => P a ∧ Q a := by
  constructor
  intro s last a run
  exact ⟨h.result run, k.result run⟩

theorem bind {m : Rolling σ α} {f : α → Rolling σ β} {P : α → Prop} {Q : β → Prop}
    (first : Yields m P) (next : ∀ a, P a → Yields (f a) Q) : Yields (m >>= f) Q := by
  constructor
  intro s last b run
  obtain ⟨a, now, ran, later⟩ := run_bind_eq_ok run
  exact (next a (first.result ran)).result later

end Yields

variable [Source σ]

/-- The computation has a result that goes with what it drew, or it stops with the error of a source
that has no answer to its next draw. -/
inductive Ending (m : Rolling σ α) (s : σ) (Q : List Draw → α → Prop) : Prop where
  | result {draws : List Draw} {a : α} {last : σ} (ran : m.run s = (.ok a, last))
      (answers : Answers s draws last) (holds : Q draws a)
  | refused {draws : List Draw} {sides : Int} {e : DrawError} {now last : σ}
      (ran : m.run s = (.error (.draw e), last)) (answers : Answers s draws now)
      (refusal : Source.draw now sides = (.error e, last))

structure Settles (m : Rolling σ α) (Q : List Draw → α → Prop) : Prop where
  ending : ∀ s : σ, Ending m s Q

namespace Settles

variable {m : Rolling σ α} {f : α → Rolling σ β} {Q : List Draw → α → Prop}
  {R : List Draw → β → Prop}

theorem pure {a : α} (holds : Q [] a) : Settles (Pure.pure a : Rolling σ α) Q := by
  constructor
  intro s
  exact .result rfl (.nil s) holds

theorem drawFace {sides : Int} {Q : List Draw → Int → Prop}
    (holds : ∀ face, Q [⟨sides, face⟩] face) :
    Settles (DiceNotation.drawFace sides : Rolling σ Int) Q := by
  constructor
  intro s
  cases drawn : Source.draw s sides with
  | mk answer next =>
    cases answer with
    | error e => exact .refused (run_drawFace_of_error drawn) (.nil s) drawn
    | ok face =>
      have answers : Answers s [⟨sides, face⟩] next := .cons drawn (.nil next)
      exact .result (run_drawFace_of_ok drawn) answers (holds face)

theorem bind (first : Settles m Q)
    (next : ∀ draws a, Q draws a → Settles (f a) fun more b => R (draws ++ more) b) :
    Settles (m >>= f) R := by
  constructor
  intro s
  cases first.ending s with
  | refused ran answers refusal => exact .refused (run_bind_of_error ran) answers refusal
  | result ran answers holds =>
    cases (next _ _ holds).ending _ with
    | result ranNext more holdsNext =>
      exact .result (by rw [run_bind_of_ok ran, ranNext]) (answers.append more) holdsNext
    | refused ranNext more refusal =>
      exact .refused (by rw [run_bind_of_ok ran, ranNext]) (answers.append more) refusal

theorem mono {Q' : List Draw → α → Prop} (h : Settles m Q)
    (imp : ∀ draws a, Q draws a → Q' draws a) : Settles m Q' := by
  constructor
  intro s
  cases h.ending s with
  | result ran answers holds => exact .result ran answers (imp _ _ holds)
  | refused ran answers refusal => exact .refused ran answers refusal

theorem yields {P : α → Prop} (h : Settles m fun _ a => P a) : Yields m P := by
  constructor
  intro s last a run
  cases h.ending s with
  | result ran answers holds =>
    rw [ran] at run
    cases run
    exact holds
  | refused ran answers refusal =>
    rw [ran] at run
    cases run

/-- What is known of the draws of a computation goes with what is known of its results. -/
theorem and_follows {P : α → Prop} (h : Settles m fun _ a => P a) (follows : Follows m m Q) :
    Settles m fun draws a => Q draws a ∧ P a := by
  constructor
  intro s
  cases h.ending s with
  | result ran answers holds =>
    obtain ⟨draws, answers, known, _⟩ := follows ran
    exact .result ran answers ⟨known, holds⟩
  | refused ran answers refusal => exact .refused ran answers refusal

end Settles

end DiceNotation
