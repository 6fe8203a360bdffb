import DiceNotation.Proofs.Roll.Ending

/-!
Computations that pay for their draws. An account holds a number of draws, and each die that the
source is asked for takes one from it. A computation that an account is enough for asks for no more
dice than that, on any source and however it ends.
-/
namespace DiceNotation

variable {σ α β : Type}

/-- So many dice were asked for, and what was to be left of the account for the result is left. -/
inductive Paid (before : Nat) (after : α → Nat) (asked : Nat) : Except RollError α → Prop where
  | result {a : α} (enough : asked + after a ≤ before) : Paid before after asked (.ok a)
  | error {e : RollError} (enough : asked ≤ before) : Paid before after asked (.error e)

theorem Paid.le {before : Nat} {after : α → Nat} {asked : Nat} {outcome : Except RollError α}
    (h : Paid before after asked outcome) : asked ≤ before := by
  cases h with
  | result enough => omega
  | error enough => exact enough

/-- From every source the account is enough for the computation. What is asked for is what a
recorder between them writes down. -/
structure Affords (before : Nat) (m : Rolling σ α) (n : Rolling (Recorder σ) α) (after : α → Nat) :
    Prop where
  run : ∀ (s : σ) (requests : List (Int × Except DrawError Int)), ∃ more outcome last,
    m.run s = (outcome, last) ∧ n.run ⟨s, requests⟩ = (outcome, ⟨last, requests ++ more⟩) ∧
      Paid before after more.length outcome

namespace Affords

variable {before : Nat} {m : Rolling σ α} {n : Rolling (Recorder σ) α} {f : α → Rolling σ β}
  {g : α → Rolling (Recorder σ) β} {between : α → Nat} {after : β → Nat}

theorem pure {a : α} {after : α → Nat} (enough : after a ≤ before) :
    Affords before (Pure.pure a : Rolling σ α) (Pure.pure a) after := by
  constructor
  intro s requests
  refine ⟨[], .ok a, s, rfl, ?_, .result (by simpa using enough)⟩
  rw [List.append_nil]
  rfl

theorem throw {e : RollError} {after : α → Nat} :
    Affords before (MonadExcept.throw e : Rolling σ α) (MonadExcept.throw e) after := by
  constructor
  intro s requests
  refine ⟨[], .error e, s, rfl, ?_, .error (Nat.zero_le before)⟩
  rw [List.append_nil]
  rfl

theorem drawFace [Source σ] (sides : Int) :
    Affords 1 (DiceNotation.drawFace sides : Rolling σ Int) (DiceNotation.drawFace sides)
      fun _ => 0 := by
  constructor
  intro s requests
  cases drawn : Source.draw s sides with
  | mk answer next =>
    have written : Source.draw (⟨s, requests⟩ : Recorder σ) sides =
        (answer, ⟨next, requests ++ [(sides, answer)]⟩) := by
      simp [Source.draw, drawn]
    cases answer with
    | ok face =>
      exact ⟨_, _, _, run_drawFace_of_ok drawn, run_drawFace_of_ok written, .result (by simp)⟩
    | error e =>
      exact ⟨_, _, _, run_drawFace_of_error drawn, run_drawFace_of_error written, .error (by simp)⟩

/-- What is put on top of the account is still there in the end. -/
theorem frame {after : α → Nat} (h : Affords before m n after) (more : Nat) :
    Affords (more + before) m n fun a => more + after a := by
  constructor
  intro s requests
  obtain ⟨asked, outcome, last, ran, written, paid⟩ := h.run s requests
  refine ⟨asked, outcome, last, ran, written, ?_⟩
  cases paid with
  | result enough => exact .result (by omega)
  | error enough => exact .error (by omega)

theorem mono {after left : α → Nat} (h : Affords before m n after) {more : Nat}
    (richer : before ≤ more) (less : ∀ a, left a ≤ after a) : Affords more m n left := by
  constructor
  intro s requests
  obtain ⟨asked, outcome, last, ran, written, paid⟩ := h.run s requests
  refine ⟨asked, outcome, last, ran, written, ?_⟩
  cases paid with
  | @result a enough =>
    have fewer := less a
    exact .result (by omega)
  | error enough => exact .error (by omega)

/-- What the first part leaves has to be enough for the second one, for each result that the first
part can have. -/
theorem bind_yields {P : α → Prop} (first : Affords before m n between) (known : Yields m P)
    (next : ∀ a, P a → Affords (between a) (f a) (g a) after) :
    Affords before (m >>= f) (n >>= g) after := by
  constructor
  intro s requests
  obtain ⟨asked, outcome, now, ran, written, paid⟩ := first.run s requests
  cases paid with
  | error enough =>
    exact ⟨asked, _, now, run_bind_of_error ran, run_bind_of_error written, .error enough⟩
  | @result a enough =>
    obtain ⟨more, outcome, last, ranNext, writtenNext, paidNext⟩ :=
      (next a (known.result ran)).run now (requests ++ asked)
    rw [List.append_assoc] at writtenNext
    refine ⟨asked ++ more, outcome, last, by rw [run_bind_of_ok ran, ranNext],
      by rw [run_bind_of_ok written, writtenNext], ?_⟩
    rw [List.length_append]
    cases paidNext with
    | result enoughNext => exact .result (by omega)
    | error enoughNext => exact .error (by omega)

theorem bind (first : Affords before m n between)
    (next : ∀ a, Affords (between a) (f a) (g a) after) :
    Affords before (m >>= f) (n >>= g) after :=
  first.bind_yields (P := fun _ => True) ⟨fun _ => trivial⟩ fun a _ => next a

end Affords

def requestsOf (n : Rolling (Recorder σ) α) (s : σ) : List (Int × Except DrawError Int) :=
  (n.run ⟨s, []⟩).2.requests

/-- From this source the computation asks for so many dice at most, and a recorder that keeps what
it asks for changes nothing. -/
structure DrawsAtMost (cap : Nat) (m : Rolling σ α) (n : Rolling (Recorder σ) α) (s : σ) :
    Prop where
  same : n.run ⟨s, []⟩ = ((m.run s).1, ⟨(m.run s).2, requestsOf n s⟩)
  few : (requestsOf n s).length ≤ cap

/-- What a result was drawn with is what the recorder has written down. -/
theorem Follows.requestsOf [Source σ] {m : Rolling σ α} {n : Rolling (Recorder σ) α}
    {Q : List Draw → α → Prop} (h : Follows m n Q) {s last : σ} {a : α}
    (ran : m.run s = (.ok a, last)) :
    ∃ draws, Q draws a ∧ DiceNotation.requestsOf n s = draws.map Draw.request := by
  obtain ⟨draws, answers, known, plays⟩ := h ran
  refine ⟨draws, known, ?_⟩
  rw [DiceNotation.requestsOf, plays.finishes (Recorder.answers answers [])]
  rfl

def Costs (cost : Nat) (m : Rolling σ α) (n : Rolling (Recorder σ) α) : Prop :=
  Affords cost m n fun _ => 0

namespace Costs

variable {cost more : Nat} {m : Rolling σ α} {n : Rolling (Recorder σ) α} {f : α → Rolling σ β}
  {g : α → Rolling (Recorder σ) β}

theorem pure (a : α) : Costs cost (Pure.pure a : Rolling σ α) (Pure.pure a) :=
  Affords.pure (Nat.zero_le cost)

theorem throw (e : RollError) :
    Costs cost (MonadExcept.throw e : Rolling σ α) (MonadExcept.throw e) :=
  Affords.throw

theorem drawFace [Source σ] (sides : Int) :
    Costs 1 (DiceNotation.drawFace sides : Rolling σ Int) (DiceNotation.drawFace sides) :=
  Affords.drawFace sides

theorem mono (h : Costs cost m n) (richer : cost ≤ more) : Costs more m n :=
  Affords.mono h richer fun _ => Nat.le_refl 0

theorem bind_yields {P : α → Prop} (first : Costs cost m n) (known : Yields m P)
    (next : ∀ a, P a → Costs more (f a) (g a)) : Costs (more + cost) (m >>= f) (n >>= g) := by
  have framed : Affords (more + cost) m n fun _ => more := first.frame more
  exact framed.bind_yields known next

theorem bind (first : Costs cost m n) (next : ∀ a, Costs more (f a) (g a)) :
    Costs (more + cost) (m >>= f) (n >>= g) :=
  first.bind_yields (P := fun _ => True) ⟨fun _ => trivial⟩ fun a _ => next a

theorem finish (first : Costs cost m n) (next : ∀ a, Costs 0 (f a) (g a)) :
    Costs cost (m >>= f) (n >>= g) := by
  rw [← Nat.zero_add cost]
  exact first.bind next

theorem drawsAtMost (h : Costs cost m n) (s : σ) : DrawsAtMost cost m n s := by
  obtain ⟨asked, outcome, last, ran, written, paid⟩ := h.run s []
  constructor
  · rw [requestsOf, written, ran]
  · rw [requestsOf, written]
    exact paid.le

theorem requestsOf_bind {P : α → Prop} (first : Costs cost m n) (known : Yields m P)
    (next : ∀ a, P a → Costs more (f a) (g a)) (s : σ) :
    ∃ asked, requestsOf (n >>= g) s = requestsOf n s ++ asked ∧ asked.length ≤ more := by
  obtain ⟨before, outcome, now, ran, written, _⟩ := first.run s []
  rw [requestsOf, requestsOf, written]
  cases outcome with
  | error e =>
    rw [run_bind_of_error written]
    exact ⟨[], (List.append_nil _).symm, Nat.zero_le more⟩
  | ok a =>
    obtain ⟨asked, _, _, _, writtenNext, paid⟩ :=
      (next a (known.result ran)).run now ([] ++ before)
    rw [run_bind_of_ok written, writtenNext]
    exact ⟨asked, rfl, paid.le⟩

end Costs

end DiceNotation
