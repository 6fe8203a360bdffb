import DiceNotation.Proofs.Roll.Reference

/-!
The history of an evaluation explains its value. It can be read in one way as operands with
operators between them, and computing that reading from left to right gives the value again.
-/
namespace DiceNotation

mutual

inductive Operand where
  | roll (term : RolledTerm)
  | value (value : Decimal)
  | group (first : Operand) (rest : Operations)

inductive Operations where
  | done
  | more (op : Operator) (operand : Operand) (rest : Operations)

end

/-- A history that is read: an operand, and the operations that follow it. -/
structure Reading where
  first : Operand
  rest : Operations

mutual

def Operand.items : Operand → List HistoryItem
  | .roll term => [.roll term]
  | .value d => [.value d]
  | .group first rest => .paren .opening :: (first.items ++ rest.items ++ [.paren .closing])

def Operations.items : Operations → List HistoryItem
  | .done => []
  | .more op operand rest => .operator op :: (operand.items ++ rest.items)

end

def Reading.items (r : Reading) : List HistoryItem := r.first.items ++ r.rest.items

def rolledTerms (history : List HistoryItem) : List RolledTerm :=
  history.filterMap fun
    | .roll term => some term
    | _ => none

mutual

/-- What an operand counts. The terms are scored one after the other: the first scoring is that of
the first roll. -/
def Operand.amount : Operand → List (Option Scoring) → Except ArithmeticError Decimal
  | .roll term, scorings => .ok (.ofInt (diceTotal (scorings.head?.getD none) term.dice))
  | .value d, _ => .ok d
  | .group first rest, scorings => do
      let left ← first.amount scorings
      rest.fold (scorings.drop (rolledTerms first.items).length) left

def Operations.fold :
    Operations → List (Option Scoring) → Decimal → Except ArithmeticError Decimal
  | .done, _, left => .ok left
  | .more op operand rest, scorings, left => do
      let right ← operand.amount scorings
      let value ← op.apply left right
      rest.fold (scorings.drop (rolledTerms operand.items).length) value

end

def Reading.fold (r : Reading) (scorings : List (Option Scoring)) :
    Except ArithmeticError Decimal := do
  let left ← r.first.amount scorings
  r.rest.fold (scorings.drop (rolledTerms r.first.items).length) left

def StartsOperation (history : List HistoryItem) : Prop :=
  ∃ op rest, history = .operator op :: rest

theorem not_startsOperation_nil : ¬ StartsOperation [] := by
  rintro ⟨op, rest, eq⟩
  cases eq

theorem not_startsOperation_paren (p : Paren) (rest : List HistoryItem) :
    ¬ StartsOperation (.paren p :: rest) := by
  rintro ⟨op, rest, eq⟩
  cases eq

mutual

theorem Operand.items_append_injective (a b : Operand) {x y : List HistoryItem}
    (h : a.items ++ x = b.items ++ y) : a = b ∧ x = y := by
  match a, b with
  | .roll t, .roll u | .value t, .value u =>
    simp only [Operand.items, List.cons_append, List.nil_append, List.cons.injEq] at h
    obtain ⟨same, rest⟩ := h
    cases same
    exact ⟨rfl, rest⟩
  | .group first rest, .group first' rest' =>
    simp only [Operand.items, List.cons_append, List.append_assoc, List.nil_append, List.cons.injEq,
      true_and] at h
    obtain ⟨rfl, behind⟩ := first.items_append_injective first' h
    obtain ⟨rfl, closed⟩ := rest.items_append_injective rest' (not_startsOperation_paren _ x)
      (not_startsOperation_paren _ y) behind
    exact ⟨rfl, (List.cons.inj closed).2⟩
  | .roll _, .value _ | .roll _, .group _ _ | .value _, .roll _ | .value _, .group _ _
  | .group _ _, .roll _ | .group _ _, .value _ => simp [Operand.items] at h

theorem Operations.items_append_injective (a b : Operations) {x y : List HistoryItem}
    (stopX : ¬ StartsOperation x) (stopY : ¬ StartsOperation y)
    (h : a.items ++ x = b.items ++ y) : a = b ∧ x = y := by
  match a, b with
  | .done, .done => exact ⟨rfl, h⟩
  | .done, .more op operand rest => exact absurd ⟨op, _, h⟩ stopX
  | .more op operand rest, .done => exact absurd ⟨op, _, h.symm⟩ stopY
  | .more op operand rest, .more op' operand' rest' =>
    simp only [Operations.items, List.cons_append, List.append_assoc, List.cons.injEq,
      HistoryItem.operator.injEq] at h
    obtain ⟨rfl, h⟩ := h
    obtain ⟨rfl, behind⟩ := operand.items_append_injective operand' h
    obtain ⟨rfl, same⟩ := rest.items_append_injective rest' stopX stopY behind
    exact ⟨rfl, same⟩

end

theorem Reading.items_injective {r q : Reading} (h : r.items = q.items) : r = q := by
  obtain ⟨first, rest⟩ := r
  obtain ⟨first', rest'⟩ := q
  obtain ⟨rfl, behind⟩ := first.items_append_injective first' h
  have ended : rest.items ++ [] = rest'.items ++ [] := by simpa using behind
  obtain ⟨rfl, _⟩ := rest.items_append_injective rest' not_startsOperation_nil
    not_startsOperation_nil ended
  rfl

def Operations.append : Operations → Operator → Operand → Operations
  | .done, op, operand => .more op operand .done
  | .more op' operand' rest, op, operand => .more op' operand' (rest.append op operand)

theorem Operations.items_append (op : Operator) (operand : Operand) (rest : Operations) :
    (rest.append op operand).items = rest.items ++ .operator op :: operand.items := by
  match rest with
  | .done => simp [append, items]
  | .more _ _ rest => simp [append, items, rest.items_append op operand]

@[simp] theorem rolledTerms_append (first second : List HistoryItem) :
    rolledTerms (first ++ second) = rolledTerms first ++ rolledTerms second :=
  List.filterMap_append

theorem Operations.fold_append (op : Operator) (operand : Operand) (rest : Operations)
    (scorings : List (Option Scoring)) (left : Decimal) :
    (rest.append op operand).fold scorings left = (do
      let value ← rest.fold scorings left
      let right ← operand.amount (scorings.drop (rolledTerms rest.items).length)
      op.apply value right) := by
  match rest with
  | .done =>
    have last (x : Except ArithmeticError Decimal) : (x >>= Except.ok) = x := bind_pure x
    simp only [append, fold, last]
    rfl
  | .more op' operand' rest =>
    have later := rest.fold_append op operand
    simp only [append, fold, later, items, bind_assoc]
    simp [rolledTerms]

namespace Reading

def append (r : Reading) (op : Operator) (operand : Operand) : Reading :=
  ⟨r.first, r.rest.append op operand⟩

theorem items_append (r : Reading) (op : Operator) (operand : Operand) :
    (r.append op operand).items = r.items ++ .operator op :: operand.items := by
  simp [append, items, Operations.items_append]

theorem fold_append (r : Reading) (op : Operator) (operand : Operand)
    (scorings : List (Option Scoring)) :
    (r.append op operand).fold scorings = (do
      let value ← r.fold scorings
      let right ← operand.amount (scorings.drop (rolledTerms r.items).length)
      op.apply value right) := by
  simp [append, fold, items, Operations.fold_append]

theorem items_single (operand : Operand) : items ⟨operand, .done⟩ = operand.items := by
  simp [items, Operations.items]

theorem fold_single (operand : Operand) (scorings : List (Option Scoring)) :
    fold ⟨operand, .done⟩ scorings = operand.amount scorings :=
  bind_pure _

end Reading

/-- A history and a value are explained by a reading whose rolls are for the terms of an
expression. A single operand is read as one. -/
structure Reading.Explains (r : Reading) (e : Expression) (evaluation : Evaluation) : Prop where
  items : r.items = evaluation.history
  terms : (rolledTerms evaluation.history).map (fun t => (t.expression, t.sides)) =
    e.diceTerms.map fun t => (t.text, t.sides)
  single : ¬ e.IsBinary → r.rest = .done
  value : ∀ more, r.fold (e.diceTerms.map DiceTerm.scoring ++ more) = .ok evaluation.value

namespace Reading.Explains

variable {r q : Reading} {e : Expression} {evaluation : Evaluation}

theorem length (h : r.Explains e evaluation) :
    (rolledTerms r.items).length = e.diceTerms.length := by
  have lengths := congrArg List.length h.terms
  rwa [List.length_map, List.length_map, ← h.items] at lengths

theorem group (h : r.Explains e evaluation) :
    Reading.Explains ⟨.group r.first r.rest, .done⟩ (.group e)
      ⟨evaluation.value, .paren .opening :: evaluation.history ++ [.paren .closing],
        evaluation.successes⟩ := by
  refine ⟨?_, ?_, fun _ => rfl, fun more => ?_⟩
  · rw [items_single, Operand.items, ← h.items]
    rfl
  · simpa [rolledTerms, Expression.diceTerms] using h.terms
  · rw [fold_single]
    exact h.value more

theorem binary {left right : Expression} {l m : Evaluation} {op : Operator} {d : Decimal}
    (hl : r.Explains left l) (hr : q.Explains right m) (operand : ¬ right.IsBinary)
    (applied : op.apply l.value m.value = .ok d) (successes : Bool) :
    (r.append op q.first).Explains (.binary op left right)
      ⟨d, l.history ++ .operator op :: m.history, successes⟩ := by
  obtain ⟨first, rest⟩ := q
  obtain rfl : rest = .done := hr.single operand
  have shown := hr.items
  rw [items_single] at shown
  refine ⟨?_, ?_, fun single => absurd trivial single, fun more => ?_⟩
  · rw [items_append, hl.items, shown]
  · have terms := hr.terms
    simp only [rolledTerms_append, List.map_append, hl.terms, Expression.diceTerms]
    rw [← terms]
    rfl
  · have value := hl.value (right.diceTerms.map DiceTerm.scoring ++ more)
    have behind := hr.value more
    rw [fold_single] at behind
    have others : (left.diceTerms.map DiceTerm.scoring ++
        (right.diceTerms.map DiceTerm.scoring ++ more)).drop left.diceTerms.length =
          right.diceTerms.map DiceTerm.scoring ++ more := List.drop_left' (List.length_map _)
    rw [fold_append, hl.length, Expression.diceTerms, List.map_append, List.append_assoc, value,
      others, behind]
    exact applied

end Reading.Explains

theorem combine_eq_ok {σ : Type} {op : Operator} {left right d : Decimal} {s last : σ}
    (ran : (combine op left right : Rolling σ Decimal).run s = (.ok d, last)) :
    op.apply left right = .ok d ∧ s = last := by
  unfold combine at ran
  split at ran
  · rename_i applied
    obtain ⟨rfl, rfl⟩ := run_pure_eq_ok ran
    exact ⟨applied, rfl⟩
  · exact absurd ran run_throw_ne_ok

variable {σ : Type} [Source σ] {limits : Limits} {s last : σ} {evaluation : Evaluation}

theorem DiceTerm.evaluate_explained {t : DiceTerm}
    (ran : ((Expression.dice t).evaluate limits : Rolling σ Evaluation).run s =
      (.ok evaluation, last)) :
    ∃ r : Reading, r.Explains (.dice t) evaluation := by
  obtain ⟨⟨rolled, total⟩, now, rolling, ran⟩ := run_bind_eq_ok ran
  obtain ⟨dice, middle, rolling, packed⟩ := run_bind_eq_ok rolling
  obtain ⟨same, rfl⟩ := run_pure_eq_ok packed
  cases same
  obtain ⟨rfl, rfl⟩ := run_pure_eq_ok ran
  refine ⟨⟨.roll ⟨t.text, t.sides, dice⟩, .done⟩, rfl, rfl, fun _ => rfl, fun more => ?_⟩
  rw [Total.amount_ofDice]
  rfl

theorem Expression.evaluate_explained {built : Limits} {e : Expression} (h : e.WellFormed built)
    (ran : (e.evaluate limits : Rolling σ Evaluation).run s = (.ok evaluation, last)) :
    ∃ r : Reading, r.Explains e evaluation := by
  induction e generalizing s last evaluation with
  | dice t => exact DiceTerm.evaluate_explained ran
  | integer value =>
    obtain ⟨rfl, rfl⟩ := run_pure_eq_ok ran
    exact ⟨⟨.value (.ofInt value), .done⟩, rfl, rfl, fun _ => rfl, fun _ => rfl⟩
  | float value =>
    obtain ⟨rfl, rfl⟩ := run_pure_eq_ok ran
    exact ⟨⟨.value value, .done⟩, rfl, rfl, fun _ => rfl, fun _ => rfl⟩
  | group inner ih =>
    obtain ⟨e, now, inside, packed⟩ := run_bind_eq_ok ran
    obtain ⟨rfl, rfl⟩ := run_pure_eq_ok packed
    obtain ⟨r, explains⟩ := ih h inside
    exact ⟨_, explains.group⟩
  | binary op left right ihLeft ihRight =>
    obtain ⟨wellLeft, wellRight, operand⟩ := h
    obtain ⟨l, now, ranLeft, ran⟩ := run_bind_eq_ok ran
    obtain ⟨m, next, ranRight, ran⟩ := run_bind_eq_ok ran
    obtain ⟨d, final, computed, packed⟩ := run_bind_eq_ok ran
    obtain ⟨rfl, rfl⟩ := run_pure_eq_ok packed
    obtain ⟨applied, rfl⟩ := combine_eq_ok computed
    obtain ⟨r, explainsLeft⟩ := ihLeft wellLeft ranLeft
    obtain ⟨q, explainsRight⟩ := ihRight wellRight ranRight
    exact ⟨_, explainsLeft.binary explainsRight operand applied _⟩

/-- Evaluated on any source, an expression of a command leaves a history that can be read in one
way, with a roll for each of its dice terms. Computed from left to right, that reading gives the
value of the evaluation. -/
theorem Command.history_explains_value {text : String} {built : Limits} {command : Command}
    (parsed : Command.parse text built = .ok command) {e : Expression}
    (part : e ∈ command.body.expression.parts) (limits : Limits) {s last : σ}
    {evaluation : Evaluation}
    (ran : (e.evaluate limits : Rolling σ Evaluation).run s = (.ok evaluation, last)) :
    (∃! r : Reading, r.items = evaluation.history) ∧
    (rolledTerms evaluation.history).map (fun t => (t.expression, t.sides)) =
      e.diceTerms.map (fun t => (t.text, t.sides)) ∧
    ∀ r : Reading, r.items = evaluation.history →
      r.fold (e.diceTerms.map DiceTerm.scoring) = .ok evaluation.value := by
  have wellFormed := Expression.wellFormed_of_mem_parts (Command.expression_wellFormed parsed) part
  obtain ⟨r, explains⟩ := Expression.evaluate_explained wellFormed ran
  have unique (q : Reading) (read : q.items = evaluation.history) : q = r :=
    Reading.items_injective (read.trans explains.items.symm)
  refine ⟨⟨r, explains.items, unique⟩, explains.terms, ?_⟩
  intro q read
  rw [unique q read]
  simpa using explains.value []

/-- Of the first two dice the higher one counts, of the last one its score. -/
theorem kept_die_times_score_explained :
    ∃ (command : Command) (evaluation : Evaluation) (last : Congruential),
      Command.parse "2d6K1 * (1d6t4 - 0.50)" {} = .ok command ∧
      (command.body.expression.evaluate {} : Rolling Congruential Evaluation).run (.ofSeed 2) =
        (.ok evaluation, last) ∧
      evaluation.value = ⟨false, 300, -2⟩ ∧
      (∃! r : Reading, r.items = evaluation.history) ∧
      ∀ r : Reading, r.items = evaluation.history →
        r.fold [none, some ⟨some 4, none, none, none⟩] = .ok ⟨false, 300, -2⟩ := by
  obtain ⟨kept, shownKept⟩ : ∃ t : DiceTerm,
    t = ⟨2, some 6, [⟨.keepHigh, some 1⟩], none, "2d6K1"⟩ := ⟨_, rfl⟩
  obtain ⟨scored, shownScored⟩ : ∃ t : DiceTerm,
    t = ⟨1, some 6, [], some ⟨some 4, none, none, none⟩, "1d6t4"⟩ := ⟨_, rfl⟩
  obtain ⟨e, shown⟩ : ∃ e : Expression, e = .binary .mul (.dice kept)
    (.group (.binary .sub (.dice scored) (.float ⟨false, 50, -2⟩))) := ⟨_, rfl⟩
  have parsed : Command.parse "2d6K1 * (1d6t4 - 0.50)" {} =
      .ok ⟨.once e, none, "2d6K1 * (1d6t4 - 0.50)"⟩ := by
    rw [shown, shownKept, shownScored]
    cbv
  have part : e ∈ (Body.once e).expression.parts := by
    rw [shown]
    exact List.mem_cons_self
  have ran : (e.evaluate {} : Rolling Congruential Evaluation).run (.ofSeed 2) =
      (.ok ⟨⟨false, 300, -2⟩,
        [.roll ⟨"2d6K1", some 6, [{ value := 4, dropped := true },
          { value := 6, extreme := .highest }]⟩, .operator .mul, .paren .opening,
         .roll ⟨"1d6t4", some 6, [{ value := 6, extreme := .highest }]⟩, .operator .sub,
         .value ⟨false, 50, -2⟩, .paren .closing], false⟩, ⟨671064393, [6, 6, 6]⟩) := by
    rw [shown, shownKept, shownScored]
    cbv
  obtain ⟨unique, _, folds⟩ := Command.history_explains_value parsed part {} ran
  have scorings : e.diceTerms.map DiceTerm.scoring = [none, some ⟨some 4, none, none, none⟩] := by
    rw [shown, shownKept, shownScored]
    rfl
  rw [scorings] at folds
  exact ⟨_, _, _, parsed, ran, rfl, unique, folds⟩

end DiceNotation
