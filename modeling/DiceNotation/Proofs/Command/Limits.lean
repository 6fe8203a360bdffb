import DiceNotation.Proofs.Command.WellFormed

/-!
Building one text under different limits: lower ceilings refuse more, but what is built is the same.
-/
namespace DiceNotation

open Grammar

variable {α β : Type}

structure DiceTerm.Within (limits : Limits) (t : DiceTerm) : Prop where
  count : t.count ≤ limits.maxDice
  sides : ∀ n ∈ t.sides, n ≤ limits.maxSides

def Expression.Within (limits : Limits) (e : Expression) : Prop :=
  ∀ t ∈ e.diceTerms, t.Within limits

structure Command.Within (limits : Limits) (c : Command) : Prop where
  terms : ∀ t ∈ c.diceTerms, t.Within limits
  times : ∀ r, c.body = .repeated r → r.times ≤ limits.maxRepeat

/-- What becomes of `a` under other limits: it is the same, or it is refused for a ceiling. -/
inductive Cut (within : Prop) (a : α) : Except BuildError α → Prop
  | same (below : within) : Cut within a (.ok a)
  | refused (above : ¬ within) (f : Fault) : Cut within a (.error (.fault f))

namespace Cut

variable {P Q : Prop} {a : α} {b : β} {x : Except BuildError α}

theorem ok (a : α) : Cut True a (.ok a) := same trivial

theorem congr (h : Cut P a x) (iff : P ↔ Q) : Cut Q a x := by
  cases h with
  | same below => exact same (iff.mp below)
  | refused above f => exact refused (fun below => above (iff.mpr below)) f

theorem bind {k : α → Except BuildError β} (h : Cut P a x) (later : Cut Q b (k a)) :
    Cut (P ∧ Q) b (x >>= k) := by
  cases h with
  | refused above f => exact refused (fun below => above below.1) f
  | same below => exact later.congr (by simp [below])

theorem map (h : Cut P a x) (f : α → β) : Cut P (f a) (f <$> x) := by
  cases h with
  | refused above f => exact refused above f
  | same below => exact same below

theorem check {n bound : Int} {f : Fault} (later : Cut P a x) :
    Cut (n ≤ bound ∧ P) a (if bound < n then .error (.fault f) else x) := by
  split
  · exact refused (fun below => by omega) f
  · exact later.congr (by simp; omega)

theorem eq_ok (h : Cut P a x) (below : P) : x = .ok a := by
  cases h with
  | same _ => rfl
  | refused above f => exact absurd below above

theorem eq_error (h : Cut P a x) (above : ¬ P) : ∃ f, x = .error (.fault f) := by
  cases h with
  | same below => exact absurd below above
  | refused _ f => exact ⟨f, rfl⟩

theorem of_eq_ok (h : Cut P a x) {c : α} (accepted : x = .ok c) : P ∧ c = a := by
  cases h with
  | same below =>
    cases accepted
    exact ⟨below, rfl⟩
  | refused above f => cases accepted

end Cut

variable {built : Limits}

theorem DiceTerm.assemble_cut {count : Nat} {sides : Option Nat} {modifiers : List Modifier}
    {clauses : List Clause} {text : String} {t : DiceTerm}
    (h : DiceTerm.assemble built count sides modifiers clauses text = .ok t) (limits : Limits) :
    Cut (t.Within limits) t (DiceTerm.assemble limits count sides modifiers clauses text) := by
  unfold assemble at h ⊢
  split at h
  · cases h
  · cases sides with
    | none =>
      cases h
      refine (Cut.check (Cut.ok _)).congr ⟨fun below => ⟨below.1, nofun⟩, fun below => ?_⟩
      exact ⟨below.count, trivial⟩
    | some n =>
      dsimp only at h ⊢
      split at h
      · cases h
      · split at h
        · cases h
        · rename_i nonzero small
          obtain ⟨scoring, scored, rfl⟩ := map_eq_ok h
          rw [if_neg nonzero, scored]
          refine (Cut.check (Cut.check (Cut.ok _))).congr ⟨fun below => ?_, fun below => ?_⟩
          · exact ⟨below.1, by rintro _ ⟨⟩; exact below.2.1⟩
          · exact ⟨below.count, below.sides _ rfl, trivial⟩

theorem Grammar.DicePhrase.build_cut {d : DicePhrase} {t : DiceTerm} (h : d.build built = .ok t)
    (limits : Limits) : Cut (t.Within limits) t (d.build limits) := by
  obtain ⟨modifiers, readOptions, h⟩ := bind_eq_ok h
  obtain ⟨clauses, readClauses, h⟩ := bind_eq_ok h
  obtain ⟨count, counted, h⟩ := bind_eq_ok h
  obtain ⟨sides, sided, h⟩ := bind_eq_ok h
  unfold build
  rw [readOptions, readClauses, counted, sided]
  exact DiceTerm.assemble_cut h limits

theorem Grammar.ExprPhrase.build_cut {p : ExprPhrase} {e : Expression} (h : p.build built = .ok e)
    (limits : Limits) : Cut (e.Within limits) e (p.build limits) := by
  induction p generalizing e with
  | dice term =>
    obtain ⟨t, read, h⟩ := bind_eq_ok h
    cases h
    exact ((DicePhrase.build_cut read limits).map Expression.dice).congr
      (by simp [Expression.Within, Expression.diceTerms])
  | float word =>
    cases h
    exact (Cut.ok _).congr (by simp [Expression.Within, Expression.diceTerms])
  | integer word =>
    obtain ⟨n, read, h⟩ := bind_eq_ok h
    cases h
    unfold build
    rw [read]
    exact (Cut.ok _).congr (by simp [Expression.Within, Expression.diceTerms])
  | group opening inner closing ih =>
    obtain ⟨i, read, h⟩ := bind_eq_ok h
    cases h
    exact (ih read).map Expression.group
  | binary left operator right ih ihRight =>
    obtain ⟨l, readLeft, h⟩ := bind_eq_ok h
    obtain ⟨r, readRight, h⟩ := bind_eq_ok h
    cases h
    refine ((ih readLeft).bind ((ihRight readRight).map (Expression.binary _ l))).congr ?_
    simp only [Expression.Within, Expression.diceTerms, List.mem_append, or_imp, forall_and]

theorem Grammar.RepeatPhrase.build_cut {p : RepeatPhrase} {r : Repetition}
    (h : p.build built = .ok r) (limits : Limits) :
    Cut (r.inner.Within limits ∧ r.times ≤ limits.maxRepeat) r (p.build limits) := by
  obtain ⟨inner, read, h⟩ := bind_eq_ok h
  obtain ⟨times, counted, h⟩ := bind_eq_ok h
  unfold Repetition.assemble at h
  split at h
  · cases h
  · split at h
    · cases h
    · rename_i nonzero small
      cases h
      refine (ExprPhrase.build_cut read limits).bind ?_
      rw [counted]
      change Cut _ _ (Repetition.assemble limits inner times _ _)
      rw [Repetition.assemble, if_neg nonzero]
      exact (Cut.check (Cut.ok _)).congr (by simp)

theorem Grammar.CommandPhrase.build_cut {p : CommandPhrase} {c : Command}
    (h : p.build built = .ok c) (limits : Limits) : Cut (c.Within limits) c (p.build limits) := by
  obtain ⟨body, read, h⟩ := bind_eq_ok h
  cases h
  suffices whole : Cut (Command.Within limits ⟨body, _, _⟩) body (p.body.build limits) from
    whole.map (Command.mk · _ _)
  unfold BodyPhrase.build at read ⊢
  split at read
  · obtain ⟨e, inner, read⟩ := bind_eq_ok read
    cases read
    refine ((ExprPhrase.build_cut inner limits).map Body.once).congr ?_
    exact ⟨fun below => ⟨below, nofun⟩, fun below => below.terms⟩
  · obtain ⟨r, inner, read⟩ := bind_eq_ok read
    cases read
    refine ((RepeatPhrase.build_cut inner limits).map Body.repeated).congr ?_
    exact ⟨fun below => ⟨below.1, by rintro _ ⟨⟩; exact below.2⟩,
      fun below => ⟨below.terms, below.times _ rfl⟩⟩

theorem Grammar.ExprPhrase.build_congr {limits other : Limits}
    (term : ∀ d : DicePhrase, d.build limits = d.build other) (p : ExprPhrase) :
    p.build limits = p.build other := by
  induction p with
  | dice d =>
    unfold build
    rw [term d]
  | float word => rfl
  | integer word => rfl
  | group opening inner closing ih =>
    unfold build
    rw [ih]
  | binary left operator right ih ihRight =>
    unfold build
    rw [ih, ihRight]

theorem Command.parse_congr {limits other : Limits} (dice : limits.maxDice = other.maxDice)
    (sides : limits.maxSides = other.maxSides) (times : limits.maxRepeat = other.maxRepeat)
    (text : String) : parse text limits = parse text other := by
  have term (d : DicePhrase) : d.build limits = d.build other := by
    unfold DicePhrase.build DiceTerm.assemble
    rw [dice, sides]
  have expr := ExprPhrase.build_congr term
  have repetition (r : RepeatPhrase) : r.build limits = r.build other := by
    unfold RepeatPhrase.build Repetition.assemble
    rw [expr, times]
  unfold parse CommandPhrase.build BodyPhrase.build
  simp only [expr, repetition]

theorem Command.Within.mono {limits wider : Limits} {c : Command} (h : c.Within limits)
    (dice : limits.maxDice ≤ wider.maxDice) (sides : limits.maxSides ≤ wider.maxSides)
    (times : limits.maxRepeat ≤ wider.maxRepeat) : c.Within wider := by
  refine ⟨fun t member => ⟨?_, fun n present => ?_⟩, fun r repeated => ?_⟩
  · exact (h.terms t member).count.trans dice
  · exact ((h.terms t member).sides n present).trans sides
  · exact (h.times r repeated).trans times

theorem Command.parse_cut {text : String} {c : Command} (h : parse text built = .ok c)
    (limits : Limits) : Cut (c.Within limits) c (parse text limits) := by
  obtain ⟨phrase, read, h⟩ := parse_eq_ok h
  unfold parse
  rw [read]
  exact CommandPhrase.build_cut h limits

end DiceNotation
