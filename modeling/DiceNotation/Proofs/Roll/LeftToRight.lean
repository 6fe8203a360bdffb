import DiceNotation.Proofs.Dice.Errors
import DiceNotation.Proofs.Roll.History

/-!
Arithmetic never disturbs the dice. An evaluation rolls the terms of its expression one after the
other from left to right, and an operation that has no result stops it right behind the terms of
that operation: the source is left where rolling those terms alone leaves it.
-/
namespace DiceNotation

variable {σ : Type} [Source σ] {limits : Limits} {s now last : σ}

def rollInTurn (limits : Limits) : List DiceTerm → Rolling σ (List RolledTerm)
  | [] => return []
  | t :: terms => do
      let (rolled, _) ← t.roll limits
      let others ← rollInTurn limits terms
      return rolled :: others

theorem rollInTurn_append (first second : List DiceTerm) :
    (rollInTurn limits (first ++ second) : Rolling σ (List RolledTerm)) = (do
      let x ← rollInTurn limits first
      let y ← rollInTurn limits second
      return x ++ y) := by
  induction first with
  | nil => simp [rollInTurn]
  | cons t first ih => simp [rollInTurn, ih]

section InTurn

variable {first second : List DiceTerm} {x y : List RolledTerm} {e : RollError}

theorem rollInTurn_append_of_ok
    (h : (rollInTurn limits first : Rolling σ (List RolledTerm)).run s = (.ok x, now))
    (k : (rollInTurn limits second : Rolling σ (List RolledTerm)).run now = (.ok y, last)) :
    (rollInTurn limits (first ++ second) : Rolling σ (List RolledTerm)).run s =
      (.ok (x ++ y), last) := by
  rw [rollInTurn_append, run_bind_of_ok h, run_bind_of_ok k]
  rfl

theorem rollInTurn_append_of_later_error
    (h : (rollInTurn limits first : Rolling σ (List RolledTerm)).run s = (.ok x, now))
    (k : (rollInTurn limits second : Rolling σ (List RolledTerm)).run now = (.error e, last)) :
    (rollInTurn limits (first ++ second) : Rolling σ (List RolledTerm)).run s =
      (.error e, last) := by
  rw [rollInTurn_append, run_bind_of_ok h, run_bind_of_error k]

theorem rollInTurn_append_of_error
    (h : (rollInTurn limits first : Rolling σ (List RolledTerm)).run s = (.error e, last))
    (second : List DiceTerm) :
    (rollInTurn limits (first ++ second) : Rolling σ (List RolledTerm)).run s =
      (.error e, last) := by
  rw [rollInTurn_append, run_bind_of_error h]

theorem rollInTurn_singleton {t : DiceTerm} {rolled : RolledTerm} {total : Total}
    (h : (t.roll limits : Rolling σ (RolledTerm × Total)).run s = (.ok (rolled, total), last)) :
    (rollInTurn limits [t] : Rolling σ (List RolledTerm)).run s = (.ok [rolled], last) := by
  rw [rollInTurn, run_bind_of_ok h]
  rfl

end InTurn

theorem Expression.rolled_of_ok {e : Expression} {evaluation : Evaluation}
    (ran : (e.evaluate limits : Rolling σ Evaluation).run s = (.ok evaluation, last)) :
    (rollInTurn limits e.diceTerms : Rolling σ (List RolledTerm)).run s =
      (.ok (rolledTerms evaluation.history), last) := by
  induction e generalizing s last evaluation with
  | dice t =>
    obtain ⟨⟨rolled, total⟩, now, rolling, finish⟩ := run_bind_eq_ok ran
    obtain ⟨rfl, rfl⟩ := run_pure_eq_ok finish
    exact rollInTurn_singleton rolling
  | integer value | float value =>
    obtain ⟨rfl, rfl⟩ := run_pure_eq_ok ran
    rfl
  | group inner ih =>
    obtain ⟨inside, now, evaluated, finish⟩ := run_bind_eq_ok ran
    obtain ⟨rfl, rfl⟩ := run_pure_eq_ok finish
    have rolled := ih evaluated
    simpa [diceTerms, rolledTerms] using rolled
  | binary op left right ihLeft ihRight =>
    obtain ⟨l, middle, ranLeft, ran⟩ := run_bind_eq_ok ran
    obtain ⟨r, after, ranRight, ran⟩ := run_bind_eq_ok ran
    obtain ⟨value, final, combined, finish⟩ := run_bind_eq_ok ran
    obtain ⟨rfl, rfl⟩ := run_pure_eq_ok finish
    obtain ⟨_, rfl⟩ := combine_eq_ok combined
    have rolled := rollInTurn_append_of_ok (ihLeft ranLeft) (ihRight ranRight)
    simpa [diceTerms, rolledTerms] using rolled

omit [Source σ] in
theorem combine_eq_error {op : Operator} {left right : Decimal} {e : RollError}
    (ran : (combine op left right : Rolling σ Decimal).run s = (.error e, last)) :
    ∃ error, e = .arithmetic error ∧ op.apply left right = .error error ∧ s = last := by
  unfold combine at ran
  split at ran
  · cases ran
  · rename_i error applied
    cases ran
    exact ⟨error, rfl, applied, rfl⟩

/-- An operation fails in its left operand, in its right one, or because they have no result. -/
theorem Expression.binary_eq_error {op : Operator} {left right : Expression} {error : RollError}
    (ran : ((Expression.binary op left right).evaluate limits : Rolling σ Evaluation).run s =
      (.error error, last)) :
    (left.evaluate limits : Rolling σ Evaluation).run s = (.error error, last) ∨
      ∃ l now, (left.evaluate limits : Rolling σ Evaluation).run s = (.ok l, now) ∧
        ((right.evaluate limits : Rolling σ Evaluation).run now = (.error error, last) ∨
          ∃ r arithmetic, (right.evaluate limits : Rolling σ Evaluation).run now = (.ok r, last) ∧
            error = .arithmetic arithmetic ∧ op.apply l.value r.value = .error arithmetic) := by
  rcases run_bind_eq_error ran with failed | ⟨l, now, ranLeft, ran⟩
  · exact .inl failed
  refine .inr ⟨l, now, ranLeft, ?_⟩
  rcases run_bind_eq_error ran with failed | ⟨r, after, ranRight, ran⟩
  · exact .inl failed
  rcases run_bind_eq_error ran with failed | ⟨value, final, _, finish⟩
  · obtain ⟨arithmetic, same, applied, rfl⟩ := combine_eq_error failed
    exact .inr ⟨r, arithmetic, ranRight, same, applied⟩
  · cases finish

theorem Expression.rolled_of_error {e : Expression} {error : RollError}
    (ran : (e.evaluate limits : Rolling σ Evaluation).run s = (.error error, last))
    (other : ∀ arithmetic, error ≠ .arithmetic arithmetic) :
    (rollInTurn limits e.diceTerms : Rolling σ (List RolledTerm)).run s = (.error error, last) := by
  induction e generalizing s with
  | dice t =>
    rcases run_bind_eq_error ran with failed | ⟨rolled, now, _, finish⟩
    · exact run_bind_of_error failed
    · cases finish
  | integer value | float value => cases ran
  | group inner ih =>
    rcases run_bind_eq_error ran with failed | ⟨inside, now, _, finish⟩
    · exact ih failed
    · cases finish
  | binary op left right ihLeft ihRight =>
    rcases binary_eq_error ran with failed | ⟨l, now, ranLeft, failed | ⟨_, arithmetic, _, same, _⟩⟩
    · exact rollInTurn_append_of_error (ihLeft failed) _
    · exact rollInTurn_append_of_later_error (rolled_of_ok ranLeft) (ihRight failed)
    · exact absurd same (other arithmetic)

inductive Place where
  | here
  | group (inner : Place)
  | left (op : Operator) (inner : Place) (right : Expression)
  | right (op : Operator) (left : Expression) (inner : Place)

namespace Place

def fill : Place → Expression → Expression
  | here, e => e
  | group inner, e => .group (inner.fill e)
  | left op inner other, e => .binary op (inner.fill e) other
  | right op other inner, e => .binary op other (inner.fill e)

def before : Place → List DiceTerm
  | here => []
  | group inner => inner.before
  | left _ inner _ => inner.before
  | right _ other inner => other.diceTerms ++ inner.before

def after : Place → List DiceTerm
  | here => []
  | group inner => inner.after
  | left _ inner other => inner.after ++ other.diceTerms
  | right _ _ inner => inner.after

theorem diceTerms_fill (p : Place) (e : Expression) :
    (p.fill e).diceTerms = p.before ++ e.diceTerms ++ p.after := by
  induction p with
  | here => simp [fill, before, after]
  | group inner ih => simpa [fill, before, after, Expression.diceTerms] using ih
  | left op inner right ih => simp [fill, before, after, Expression.diceTerms, ih]
  | right op left inner ih => simp [fill, before, after, Expression.diceTerms, ih]

def reach (limits : Limits) : Place → Rolling σ Unit
  | here => return ()
  | group inner => inner.reach limits
  | left _ inner _ => inner.reach limits
  | right _ other inner => do
      let _ ← other.evaluate limits
      inner.reach limits

theorem rolled_of_reach {p : Place}
    (reached : (p.reach limits : Rolling σ Unit).run s = (.ok (), now)) :
    ∃ x, (rollInTurn limits p.before : Rolling σ (List RolledTerm)).run s = (.ok x, now) := by
  induction p generalizing s with
  | here =>
    obtain ⟨_, rfl⟩ := run_pure_eq_ok reached
    exact ⟨[], rfl⟩
  | group inner ih | left op inner right ih => exact ih reached
  | right op left inner ih =>
    obtain ⟨evaluation, middle, ran, reached⟩ := run_bind_eq_ok reached
    obtain ⟨x, rolled⟩ := ih reached
    exact ⟨_, rollInTurn_append_of_ok (Expression.rolled_of_ok ran) rolled⟩

end Place

structure Operation where
  place : Place
  op : Operator
  left : Expression
  right : Expression

namespace Operation

def node (o : Operation) : Expression := .binary o.op o.left o.right

def whole (o : Operation) : Expression := o.place.fill o.node

def operands (limits : Limits) (o : Operation) : Rolling σ (Evaluation × Evaluation) := do
  o.place.reach limits
  let left ← o.left.evaluate limits
  let right ← o.right.evaluate limits
  return (left, right)

/-- The evaluation gets to the operation, and its operands have no result. -/
def Stops (limits : Limits) (o : Operation) (s : σ) (error : ArithmeticError) (last : σ) : Prop :=
  ∃ left right, (o.operands limits : Rolling σ (Evaluation × Evaluation)).run s =
    (.ok (left, right), last) ∧ o.op.apply left.value right.value = .error error

variable {o : Operation} {error : ArithmeticError}

theorem operands_eq_ok {l r : Evaluation}
    (ran : (o.operands limits : Rolling σ (Evaluation × Evaluation)).run s = (.ok (l, r), last)) :
    ∃ now middle, (o.place.reach limits : Rolling σ Unit).run s = (.ok (), now) ∧
      (o.left.evaluate limits : Rolling σ Evaluation).run now = (.ok l, middle) ∧
      (o.right.evaluate limits : Rolling σ Evaluation).run middle = (.ok r, last) := by
  obtain ⟨_, now, reached, ran⟩ := run_bind_eq_ok ran
  obtain ⟨l, middle, ranLeft, ran⟩ := run_bind_eq_ok ran
  obtain ⟨r, after, ranRight, ran⟩ := run_bind_eq_ok ran
  obtain ⟨same, rfl⟩ := run_pure_eq_ok ran
  cases same
  exact ⟨now, middle, reached, ranLeft, ranRight⟩

theorem operands_of_ok {l r : Evaluation} {middle : σ}
    (reached : (o.place.reach limits : Rolling σ Unit).run s = (.ok (), now))
    (ranLeft : (o.left.evaluate limits : Rolling σ Evaluation).run now = (.ok l, middle))
    (ranRight : (o.right.evaluate limits : Rolling σ Evaluation).run middle = (.ok r, last)) :
    (o.operands limits : Rolling σ (Evaluation × Evaluation)).run s = (.ok (l, r), last) := by
  rw [operands, run_bind_of_ok reached, run_bind_of_ok ranLeft, run_bind_of_ok ranRight]
  rfl

theorem Stops.rolled (h : o.Stops limits s error last) :
    ∃ x, (rollInTurn limits (o.place.before ++ o.node.diceTerms) :
      Rolling σ (List RolledTerm)).run s = (.ok x, last) := by
  obtain ⟨l, r, ran, _⟩ := h
  obtain ⟨now, middle, reached, ranLeft, ranRight⟩ := operands_eq_ok ran
  obtain ⟨x, rolled⟩ := Place.rolled_of_reach reached
  have inside := rollInTurn_append_of_ok (Expression.rolled_of_ok ranLeft)
    (Expression.rolled_of_ok ranRight)
  exact ⟨_, rollInTurn_append_of_ok rolled inside⟩

theorem stops_right {op op' : Operator} {other left right : Expression} {inner : Place} :
    Stops limits ⟨.right op' other inner, op, left, right⟩ s error last ↔
      ∃ evaluation now, (other.evaluate limits : Rolling σ Evaluation).run s =
        (.ok evaluation, now) ∧ Stops limits ⟨inner, op, left, right⟩ now error last := by
  constructor
  · rintro ⟨l, r, ran, applied⟩
    obtain ⟨now, middle, reached, ranLeft, ranRight⟩ := operands_eq_ok ran
    obtain ⟨evaluation, first, evaluated, reached⟩ := run_bind_eq_ok reached
    exact ⟨evaluation, first, evaluated, l, r, operands_of_ok reached ranLeft ranRight, applied⟩
  · rintro ⟨evaluation, first, evaluated, l, r, ran, applied⟩
    obtain ⟨now, middle, reached, ranLeft, ranRight⟩ := operands_eq_ok ran
    refine ⟨l, r, operands_of_ok ?_ ranLeft ranRight, applied⟩
    exact (run_bind_of_ok evaluated).trans reached

theorem Stops.run (h : o.Stops limits s error last) :
    (o.whole.evaluate limits : Rolling σ Evaluation).run s =
      (.error (.arithmetic error), last) := by
  obtain ⟨place, op, left, right⟩ := o
  induction place generalizing s with
  | here =>
    obtain ⟨l, r, ran, applied⟩ := h
    obtain ⟨now, middle, reached, ranLeft, ranRight⟩ := operands_eq_ok ran
    obtain ⟨_, rfl⟩ := run_pure_eq_ok reached
    change ((Expression.binary op left right).evaluate limits : Rolling σ Evaluation).run s = _
    rw [Expression.evaluate, run_bind_of_ok ranLeft, run_bind_of_ok ranRight]
    apply run_bind_of_error
    rw [combine, applied]
    rfl
  | group inner ih => exact run_bind_of_error (ih h)
  | left op' inner other ih => exact run_bind_of_error (ih h)
  | right op' other inner ih =>
    obtain ⟨evaluation, now, evaluated, later⟩ := stops_right.mp h
    exact (run_bind_of_ok evaluated).trans (run_bind_of_error (ih later))

theorem exists_stops {e : Expression}
    (ran : (e.evaluate limits : Rolling σ Evaluation).run s = (.error (.arithmetic error), last)) :
    ∃ o : Operation, o.whole = e ∧ o.Stops limits s error last := by
  induction e generalizing s with
  | dice t =>
    have never : NeverArithmetic ((Expression.dice t).evaluate limits : Rolling σ Evaluation) :=
      (NeverArithmetic.term limits t).bind fun rolled => .pure _
    exact absurd ran (never s error last)
  | integer value | float value => cases ran
  | group inner ih =>
    rcases run_bind_eq_error ran with failed | ⟨inside, now, _, finish⟩
    · obtain ⟨o, rfl, stops⟩ := ih failed
      exact ⟨⟨.group o.place, o.op, o.left, o.right⟩, rfl, stops⟩
    · cases finish
  | binary op left right ihLeft ihRight =>
    rcases Expression.binary_eq_error ran with
      failed | ⟨l, now, ranLeft, failed | ⟨r, _, ranRight, same, applied⟩⟩
    · obtain ⟨o, rfl, stops⟩ := ihLeft failed
      exact ⟨⟨.left op o.place right, o.op, o.left, o.right⟩, rfl, stops⟩
    · obtain ⟨o, rfl, stops⟩ := ihRight failed
      exact ⟨⟨.right op left o.place, o.op, o.left, o.right⟩, rfl,
        stops_right.mpr ⟨l, now, ranLeft, stops⟩⟩
    · cases same
      exact ⟨⟨.here, op, left, right⟩, rfl, l, r, operands_of_ok rfl ranLeft ranRight, applied⟩

theorem Stops.part {op : Operator} {left right : Expression} (h : o.Stops limits s error last)
    (whole : o.whole = .binary op left right) :
    match (left.evaluate limits : Rolling σ Evaluation).run s with
    | (.error _, _) => ∃ o' : Operation, o = { o' with place := .left op o'.place right } ∧
        o'.whole = left ∧ o'.Stops limits s error last
    | (.ok _, now) => match (right.evaluate limits : Rolling σ Evaluation).run now with
      | (.error _, _) => ∃ o' : Operation, o = { o' with place := .right op left o'.place } ∧
          o'.whole = right ∧ o'.Stops limits now error last
      | (.ok _, _) => o = ⟨.here, op, left, right⟩ := by
  obtain ⟨place, op', left', right'⟩ := o
  cases place with
  | here =>
    obtain ⟨rfl, rfl, rfl⟩ := Expression.binary.inj whole
    obtain ⟨l, r, ran, _⟩ := h
    obtain ⟨now, middle, reached, ranLeft, ranRight⟩ := operands_eq_ok ran
    obtain ⟨_, rfl⟩ := run_pure_eq_ok reached
    dsimp only at ranLeft ranRight
    rw [ranLeft]
    dsimp only
    rw [ranRight]
  | group inner => cases whole
  | left op'' inner other =>
    obtain ⟨rfl, below, rfl⟩ := Expression.binary.inj whole
    have inside : Operation.whole ⟨inner, op', left', right'⟩ = left := below
    have stopped := Stops.run (o := ⟨inner, op', left', right'⟩) h
    rw [inside] at stopped
    rw [stopped]
    exact ⟨⟨inner, op', left', right'⟩, rfl, inside, h⟩
  | right op'' other inner =>
    obtain ⟨rfl, rfl, below⟩ := Expression.binary.inj whole
    obtain ⟨evaluation, now, evaluated, later⟩ := stops_right.mp h
    have inside : Operation.whole ⟨inner, op', left', right'⟩ = right := below
    have stopped := later.run
    rw [inside] at stopped
    rw [evaluated]
    dsimp only
    rw [stopped]
    exact ⟨⟨inner, op', left', right'⟩, rfl, inside, later⟩

/-- Only the first operation without a result stops an evaluation: what stands to the left of it
has a value, and what it stands in has none. -/
theorem Stops.unique {e : Expression} {o' : Operation} (h : o.Stops limits s error last)
    (k : o'.Stops limits s error last) (whole : o.whole = e) (whole' : o'.whole = e) : o = o' := by
  induction e generalizing s o o' with
  | dice t | integer value | float value =>
    obtain ⟨place, op, left, right⟩ := o
    cases place <;> cases whole
  | group inner ih =>
    obtain ⟨place, op, left, right⟩ := o
    obtain ⟨place', op', left', right'⟩ := o'
    cases place with
    | group place =>
      cases place' with
      | group place' =>
        have stops : Stops limits ⟨place, op, left, right⟩ s error last := h
        have stops' : Stops limits ⟨place', op', left', right'⟩ s error last := k
        have inside := ih stops stops' (Expression.group.inj whole) (Expression.group.inj whole')
        cases inside
        rfl
      | here | left op'' inner' other | right op'' other inner' => cases whole'
    | here | left op'' inner' other | right op'' other inner' => cases whole
  | binary op left right ihLeft ihRight =>
    have part := h.part whole
    have part' := k.part whole'
    rcases ranLeft : (left.evaluate limits : Rolling σ Evaluation).run s with ⟨e | l, now⟩
    · rw [ranLeft] at part part'
      obtain ⟨_, rfl, inside, stops⟩ := part
      obtain ⟨_, rfl, inside', stops'⟩ := part'
      rw [ihLeft stops stops' inside inside']
    rw [ranLeft] at part part'
    dsimp only at part part'
    rcases ranRight : (right.evaluate limits : Rolling σ Evaluation).run now with ⟨e | r, after⟩
    · rw [ranRight] at part part'
      obtain ⟨_, rfl, inside, stops⟩ := part
      obtain ⟨_, rfl, inside', stops'⟩ := part'
      rw [ihRight stops stops' inside inside']
    · rw [ranRight] at part part'
      exact part.trans part'.symm

end Operation

/-- Every evaluation rolls the terms of its expression from left to right. If it comes to a value,
all of them are rolled and stand in its history; if it fails in arithmetic, at just one operation,
then those up to the end of that operation are; and its dice fail as they do without arithmetic. -/
theorem Expression.dice_undisturbed (e : Expression) (limits : Limits) (s : σ) :
    match (e.evaluate limits : Rolling σ Evaluation).run s with
    | (.ok evaluation, last) =>
        (rollInTurn limits e.diceTerms : Rolling σ (List RolledTerm)).run s =
          (.ok (rolledTerms evaluation.history), last)
    | (.error (.arithmetic error), last) =>
        (∃! o : Operation, o.whole = e ∧ o.Stops limits s error last) ∧
        ∀ o : Operation, o.whole = e → o.Stops limits s error last →
          e.diceTerms = o.place.before ++ o.node.diceTerms ++ o.place.after ∧
          ∃ rolled, (rollInTurn limits (o.place.before ++ o.node.diceTerms) :
            Rolling σ (List RolledTerm)).run s = (.ok rolled, last)
    | (.error error, last) =>
        (rollInTurn limits e.diceTerms : Rolling σ (List RolledTerm)).run s =
          (.error error, last) := by
  rcases ran : (e.evaluate limits : Rolling σ Evaluation).run s with ⟨error | evaluation, last⟩
  · cases error with
    | arithmetic error =>
      obtain ⟨o, whole, stops⟩ := Operation.exists_stops ran
      refine ⟨⟨o, ⟨whole, stops⟩, ?_⟩, ?_⟩
      · rintro o' ⟨whole', stops'⟩
        exact stops'.unique stops whole' whole
      · rintro o' rfl stops'
        exact ⟨o'.place.diceTerms_fill o'.node, stops'.rolled⟩
    | draw error => exact Expression.rolled_of_error ran nofun
    | sumOverflow => exact Expression.rolled_of_error ran nofun
    | missingValue kind => exact Expression.rolled_of_error ran nofun
  · exact Expression.rolled_of_ok ran

end DiceNotation
