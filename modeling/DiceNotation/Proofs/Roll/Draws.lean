import DiceNotation.Dice.Rolling

/-!
What a computation asks of its source. A computation follows another one if every result of the
first comes with the draws that led to it, and the second, on any source that answers those draws,
asks for the same dice and has the same result.
-/
namespace DiceNotation

structure Draw where
  sides : Int
  face : Int
  deriving DecidableEq, Repr

namespace Draw

def Possible (d : Draw) : Prop := 1 ≤ d.sides ∧ 1 ≤ d.face ∧ d.face ≤ d.sides

def request (d : Draw) : Int × Except DrawError Int := (d.sides, .ok d.face)

end Draw

variable {σ τ α β : Type}

theorem run_bind (m : Rolling σ α) (f : α → Rolling σ β) (s : σ) :
    (m >>= f).run s =
      match m.run s with
      | (.ok a, next) => (f a).run next
      | (.error e, next) => (.error e, next) := by
  have bound : (m >>= f).run s = ExceptT.bindCont f (m.run s).1 (m.run s).2 := rfl
  rw [bound]
  rcases m.run s with ⟨e | a, next⟩ <;> rfl

theorem run_bind_of_ok {m : Rolling σ α} {f : α → Rolling σ β} {s now : σ} {a : α}
    (h : m.run s = (.ok a, now)) : (m >>= f).run s = (f a).run now := by
  rw [run_bind, h]

theorem run_bind_of_error {m : Rolling σ α} {f : α → Rolling σ β} {s now : σ} {e : RollError}
    (h : m.run s = (.error e, now)) : (m >>= f).run s = (.error e, now) := by
  rw [run_bind, h]

theorem run_bind_eq_ok {m : Rolling σ α} {f : α → Rolling σ β} {s last : σ} {b : β}
    (h : (m >>= f).run s = (.ok b, last)) :
    ∃ a now, m.run s = (.ok a, now) ∧ (f a).run now = (.ok b, last) := by
  rcases eq : m.run s with ⟨e | a, now⟩
  · rw [run_bind_of_error eq] at h
    cases h
  · rw [run_bind_of_ok eq] at h
    exact ⟨a, now, rfl, h⟩

theorem run_bind_eq_error {m : Rolling σ α} {f : α → Rolling σ β} {s last : σ} {e : RollError}
    (h : (m >>= f).run s = (.error e, last)) :
    m.run s = (.error e, last) ∨
      ∃ a now, m.run s = (.ok a, now) ∧ (f a).run now = (.error e, last) := by
  rcases eq : m.run s with ⟨e' | a, now⟩
  · rw [run_bind_of_error eq] at h
    cases h
    exact .inl rfl
  · rw [run_bind_of_ok eq] at h
    exact .inr ⟨a, now, rfl, h⟩

theorem run_pure_eq_ok {a b : α} {s last : σ}
    (h : (pure a : Rolling σ α).run s = (.ok b, last)) : a = b ∧ s = last := by
  cases h
  exact ⟨rfl, rfl⟩

theorem run_throw_ne_ok {e : RollError} {a : α} {s last : σ} :
    (throw e : Rolling σ α).run s ≠ (.ok a, last) := by
  intro h
  cases h

variable [Source σ] [Source τ]

theorem run_drawFace_of_ok {sides face : Int} {s now : σ}
    (h : Source.draw s sides = (.ok face, now)) :
    (drawFace sides : Rolling σ Int).run s = (.ok face, now) := by
  change drawFace sides s = _
  simp only [drawFace, h]

theorem run_drawFace_of_error {sides : Int} {e : DrawError} {s now : σ}
    (h : Source.draw s sides = (.error e, now)) :
    (drawFace sides : Rolling σ Int).run s = (.error (.draw e), now) := by
  change drawFace sides s = _
  simp only [drawFace, h]

/-- The source answers the draws one after the other, and the second state is left of it. -/
inductive Answers : σ → List Draw → σ → Prop where
  | nil (s : σ) : Answers s [] s
  | cons {s next last : σ} {d : Draw} {draws : List Draw}
      (answer : Source.draw s d.sides = (.ok d.face, next))
      (rest : Answers next draws last) : Answers s (d :: draws) last

theorem Answers.append {s next last : σ} {first second : List Draw}
    (h : Answers s first next) (k : Answers next second last) :
    Answers s (first ++ second) last := by
  induction h with
  | nil s => exact k
  | cons answer rest ih => exact .cons answer (ih k)

theorem Answers.split {s last : σ} {first second : List Draw}
    (h : Answers s (first ++ second) last) :
    ∃ next, Answers s first next ∧ Answers next second last := by
  induction first generalizing s with
  | nil => exact ⟨s, .nil s, h⟩
  | cons d first ih =>
    cases h with
    | cons answer rest =>
      obtain ⟨next, left, right⟩ := ih rest
      exact ⟨next, .cons answer left, right⟩

/-- Asked for dice with at least one side, the source always answers with a face of the die. -/
def Fair (s : σ) : Prop :=
  ∀ ⦃draws : List Draw⦄ ⦃now : σ⦄, Answers s draws now → (∀ d ∈ draws, 1 ≤ d.sides) →
    ∀ ⦃sides : Int⦄, 1 ≤ sides →
      ∃ face next, Source.draw now sides = (.ok face, next) ∧ 1 ≤ face ∧ face ≤ sides

theorem Fair.answer {s : σ} (fair : Fair s) {sides : Int} (sided : 1 ≤ sides) :
    ∃ face next, Source.draw s sides = (.ok face, next) ∧ 1 ≤ face ∧ face ≤ sides :=
  fair (.nil s) (by simp) sided

theorem Fair.after {s now : σ} {draws : List Draw} (fair : Fair s) (h : Answers s draws now)
    (sided : ∀ d ∈ draws, 1 ≤ d.sides) : Fair now := by
  intro later last answers laterSided sides one
  refine fair (h.append answers) ?_ one
  intro d member
  rcases List.mem_append.mp member with old | new
  · exact sided d old
  · exact laterSided d new

theorem Fair.possible {s last : σ} {draws : List Draw} (fair : Fair s) (h : Answers s draws last)
    (sided : ∀ d ∈ draws, 1 ≤ d.sides) : ∀ d ∈ draws, d.Possible := by
  induction h with
  | nil s => simp
  | @cons s next last d draws answer rest ih =>
    have one : 1 ≤ d.sides := sided d (by simp)
    have later : Fair next :=
      fair.after (.cons answer (.nil next)) (by simpa using one)
    obtain ⟨face, other, same, low, high⟩ := fair.answer one
    have faceEq : d.face = face := by
      rw [answer] at same
      simpa using congrArg Prod.fst same
    intro d' member
    rcases List.mem_cons.mp member with rfl | member
    · exact ⟨one, faceEq ▸ low, faceEq ▸ high⟩
    · exact ih later (fun x mem => sided x (List.mem_cons_of_mem d mem)) d' member

theorem fair_of_answer (answer : ∀ (s : σ) (sides : Int), 1 ≤ sides →
    ∃ face next, Source.draw s sides = (.ok face, next) ∧ 1 ≤ face ∧ face ≤ sides) (s : σ) :
    Fair s := by
  intro draws now _ _ sides one
  exact answer now sides one

theorem Congruential.fair (c : Congruential) : Fair c := by
  refine fair_of_answer ?_ c
  intro c sides one
  have sided : sides ≠ 0 := by omega
  simp only [Source.draw, draw, sided, if_false]
  generalize ((c.state * 1103515245 + 12345).fmod 2147483648).fdiv 256 = drawn
  have low := Int.fmod_nonneg_of_pos drawn (show 0 < sides by omega)
  have high := Int.fmod_lt_of_pos drawn (show 0 < sides by omega)
  exact ⟨_, _, rfl, by omega, by omega⟩

theorem Script.answers {draws : List Draw} (possible : ∀ d ∈ draws, d.Possible)
    (faces rest : List Int) (consumed : Nat) :
    Answers (⟨faces, draws.map Draw.face ++ rest, false, consumed⟩ : Script) draws
      ⟨faces, rest, false, consumed + draws.length⟩ := by
  induction draws generalizing consumed with
  | nil => exact .nil _
  | cons d draws ih =>
    obtain ⟨_, low, high⟩ := possible d (by simp)
    have later := ih (fun x mem => possible x (List.mem_cons_of_mem d mem)) (consumed + 1)
    rw [List.length_cons, Nat.add_comm draws.length, ← Nat.add_assoc]
    refine .cons ?_ later
    simp [Source.draw, Script.draw, Script.take, low, high]

theorem Script.exhausted (faces : List Int) (consumed : Nat) (sides : Int) :
    Source.draw (⟨faces, [], false, consumed⟩ : Script) sides =
      (.error (.exhausted consumed), ⟨faces, [], false, consumed⟩) := by
  cases faces <;> rfl

/-- A source that keeps every question put to it, with its answer, in order. -/
structure Recorder (σ : Type) where
  source : σ
  requests : List (Int × Except DrawError Int)

instance : Source (Recorder σ) where
  draw r sides :=
    let (answer, source) := Source.draw r.source sides
    (answer, ⟨source, r.requests ++ [(sides, answer)]⟩)

theorem Recorder.answers {s last : σ} {draws : List Draw} (h : Answers s draws last)
    (requests : List (Int × Except DrawError Int)) :
    Answers (⟨s, requests⟩ : Recorder σ) draws ⟨last, requests ++ draws.map Draw.request⟩ := by
  induction h generalizing requests with
  | nil s => simpa using Answers.nil _
  | @cons s next last d draws answer rest ih =>
    have later := ih (requests ++ [d.request])
    rw [List.append_assoc, List.singleton_append] at later
    refine .cons ?_ later
    simp [Source.draw, answer, Draw.request]

/-- With these draws the computation has this result, whatever source they come from, and when a
source refuses one of them the computation fails there. -/
structure Plays (m : Rolling τ α) (draws : List Draw) (a : α) : Prop where
  finishes : ∀ {t last : τ}, Answers t draws last → m.run t = (.ok a, last)
  breaks : ∀ {before after : List Draw} {d : Draw} {t now last : τ} {e : DrawError},
    draws = before ++ d :: after → Answers t before now →
      Source.draw now d.sides = (.error e, last) → m.run t = (.error (.draw e), last)

theorem Plays.pure (a : α) : Plays (Pure.pure a : Rolling τ α) [] a where
  finishes := by
    intro t last h
    cases h
    rfl
  breaks := by
    intro before after d t now last e eq
    simp at eq

theorem Plays.drawFace (d : Draw) :
    Plays (DiceNotation.drawFace d.sides : Rolling τ Int) [d] d.face where
  finishes := by
    intro t last h
    cases h with
    | cons answer rest =>
      cases rest
      exact run_drawFace_of_ok answer
  breaks := by
    intro before after d' t now last e eq h refused
    cases before with
    | nil =>
      cases h
      simp only [List.nil_append, List.cons.injEq] at eq
      obtain ⟨rfl, _⟩ := eq
      exact run_drawFace_of_error refused
    | cons x before => simp at eq

theorem Plays.bind {m : Rolling τ α} {f : α → Rolling τ β} {first second : List Draw} {a : α}
    {b : β} (h : Plays m first a) (k : Plays (f a) second b) :
    Plays (m >>= f) (first ++ second) b where
  finishes := by
    intro t last answers
    obtain ⟨now, left, right⟩ := answers.split
    rw [run_bind_of_ok (h.finishes left)]
    exact k.finishes right
  breaks := by
    intro before after d t now last e eq answers refused
    rcases List.append_eq_append_iff.mp eq with ⟨rest, rfl, split⟩ | ⟨rest, rfl, split⟩
    · -- all of `first` is answered, so the refusal comes in the second part
      obtain ⟨middle, left, right⟩ := answers.split
      rw [run_bind_of_ok (h.finishes left)]
      exact k.breaks split right refused
    · cases rest with
      | nil =>
        rw [List.append_nil] at h
        rw [run_bind_of_ok (h.finishes answers)]
        have whole : second = [] ++ d :: after := split.symm
        exact k.breaks whole (.nil now) refused
      | cons d' rest =>
        simp only [List.cons_append, List.cons.injEq] at split
        obtain ⟨rfl, _⟩ := split
        exact run_bind_of_error (h.breaks rfl answers refused)

/-- Every result of the first computation comes with draws that satisfy `Q` and with which the
second computation has this result as well. -/
def Follows (m : Rolling σ α) (n : Rolling τ α) (Q : List Draw → α → Prop) : Prop :=
  ∀ ⦃s last : σ⦄ ⦃a : α⦄, m.run s = (.ok a, last) →
    ∃ draws, Answers s draws last ∧ Q draws a ∧ Plays n draws a

theorem Follows.mono {m : Rolling σ α} {n : Rolling τ α} {Q R : List Draw → α → Prop}
    (h : Follows m n Q) (imp : ∀ draws a, Q draws a → R draws a) : Follows m n R := by
  intro s last a run
  obtain ⟨draws, answers, q, plays⟩ := h run
  exact ⟨draws, answers, imp draws a q, plays⟩

theorem Follows.pure {a : α} {Q : List Draw → α → Prop} (q : Q [] a) :
    Follows (Pure.pure a : Rolling σ α) (Pure.pure a : Rolling τ α) Q := by
  intro s last b run
  obtain ⟨rfl, rfl⟩ := run_pure_eq_ok run
  exact ⟨[], .nil s, q, .pure a⟩

theorem Follows.throw {e : RollError} {n : Rolling τ α} {Q : List Draw → α → Prop} :
    Follows (MonadExcept.throw e : Rolling σ α) n Q := by
  intro s last a run
  exact absurd run run_throw_ne_ok

theorem Follows.drawFace {sides : Int} {Q : List Draw → Int → Prop}
    (q : ∀ face, Q [⟨sides, face⟩] face) :
    Follows (DiceNotation.drawFace sides : Rolling σ Int)
      (DiceNotation.drawFace sides : Rolling τ Int) Q := by
  intro s last face run
  rcases eq : Source.draw s sides with ⟨e | answer, next⟩
  · rw [run_drawFace_of_error eq] at run
    cases run
  · rw [run_drawFace_of_ok eq] at run
    cases run
    exact ⟨[⟨sides, face⟩], .cons eq (.nil last), q face, .drawFace ⟨sides, face⟩⟩

theorem Follows.bind {m : Rolling σ α} {n : Rolling τ α} {f : α → Rolling σ β} {g : α → Rolling τ β}
    {Q : List Draw → α → Prop} {R : List Draw → β → Prop} (first : Follows m n Q)
    (next : ∀ a draws, Q draws a → Plays n draws a →
      Follows (f a) (g a) fun more b => R (draws ++ more) b) :
    Follows (m >>= f) (n >>= g) R := by
  intro s last b run
  obtain ⟨a, now, firstRun, run⟩ := run_bind_eq_ok run
  obtain ⟨draws, answers, q, plays⟩ := first firstRun
  obtain ⟨more, later, r, playsLater⟩ := next a draws q plays run
  exact ⟨draws ++ more, answers.append later, r, plays.bind playsLater⟩

end DiceNotation
