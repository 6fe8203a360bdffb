import DiceNotation.Proofs.Grammar.Rules

/-!
The derivation tree of a phrase. A phrase of the right shape has one, and every derivation of a
command from fitting words is the tree of such a phrase.
-/
namespace DiceNotation.Grammar

def maybeLeaf (t : Terminal) (w : Option Word) : List Tree := w.toList.map (.leaf t)

def Rule.ofKind : ModifierKind → Rule
  | .explode => explode
  | .explodeAll => explodeAll
  | .reroll => reroll
  | .rerollAll => rerollAll
  | .keepHigh => keepHigh
  | .keepLow => keepLow
  | .dropHigh => dropHigh
  | .dropLow => dropLow

def OptionPhrase.terminal (o : OptionPhrase) : Terminal :=
  match o.kind with
  | .explode => .explode
  | .explodeAll => if o.key.lexeme = ['!'] then .bang else .explodeAll
  | .reroll => .reroll
  | .rerollAll => .rerollAll
  | .keepHigh => .keepHigh
  | .keepLow => .keepLow
  | .dropHigh => .dropHigh
  | .dropLow => .dropLow

def OptionPhrase.tree (o : OptionPhrase) : Tree :=
  .node .option [.node (.ofKind o.kind) (.leaf o.terminal o.key :: maybeLeaf .number o.number)]

def entryTrees : Option (Word × List (Word × Word)) → List Tree
  | none => []
  | some (first, others) =>
      .leaf .number first ::
        others.flatMap fun (comma, number) => [.leaf .comma comma, .leaf .number number]

def ClausePhrase.tree : ClausePhrase → Tree
  | target key number => .node .clause [.node .target [.leaf .target key, .leaf .number number]]
  | targetList key opening entries closing =>
      .node .clause [.node .target [.leaf .target key, .node .targetList
        (.leaf .openBracket opening :: entryTrees entries ++ [.leaf .closeBracket closing])]]
  | doubleTarget key number =>
      .node .clause [.node .doubleTarget [.leaf .doubleTarget key, .leaf .number number]]
  | failure key number =>
      .node .clause [.node .failure [.leaf .failure key, .leaf .number number]]

def SidesPhrase.tree : SidesPhrase → Tree
  | number word => .leaf .number word
  | fudge word => .leaf .fudge word

def DiceHead.trees (h : DiceHead) : List Tree :=
  maybeLeaf .count h.count ++ .leaf .marker h.marker :: h.sides.tree ::
    h.options.map OptionPhrase.tree

def scoringTrees (clauses : List ClausePhrase) : List Tree :=
  if clauses = [] then [] else [.node .scoring (clauses.map ClausePhrase.tree)]

def DicePhrase.tree (d : DicePhrase) : Tree :=
  .node .dice (d.head.trees ++ scoringTrees d.clauses)

def ExprPhrase.trees : ExprPhrase → List Tree
  | dice term => [.node .leaf [term.tree]]
  | float word => [.node .leaf [.leaf .float word]]
  | integer word => [.node .leaf [.leaf .integer word]]
  | group opening inner closing =>
      [.node .leaf [.leaf .openParen opening, .node .expr inner.trees, .leaf .closeParen closing]]
  | binary left operator right => left.trees ++ .leaf .operator operator :: right.trees

def ExprPhrase.tree (e : ExprPhrase) : Tree := .node .expr e.trees

def RepeatPhrase.tree (r : RepeatPhrase) : Tree :=
  .node .repeatedExpr (.leaf .openParen r.opening :: r.inner.tree :: .leaf .closeParen r.closing ::
    .leaf .caret r.caret :: maybeLeaf .repeatMode r.mode ++ [.leaf .number r.times])

def BodyPhrase.tree : BodyPhrase → Tree
  | expr phrase => phrase.tree
  | repeated phrase => phrase.tree

def CommandPhrase.tree (c : CommandPhrase) : Tree :=
  .node .command (c.body.tree :: maybeLeaf .reason c.reason)

def OptionPhrase.Shaped (o : OptionPhrase) : Prop :=
  o.number = none → o.kind = .explode ∨ o.kind = .explodeAll

def DicePhrase.Shaped (d : DicePhrase) : Prop :=
  (∀ o ∈ d.head.options, o.Shaped) ∧ d.clauses.length ≤ 3

def ExprPhrase.IsBinary : ExprPhrase → Prop
  | binary _ _ _ => True
  | _ => False

/-- All operators bind alike and to the left: no right operand is an operation itself, unless it
stands in parentheses. -/
def ExprPhrase.Shaped : ExprPhrase → Prop
  | dice term => term.Shaped
  | float _ => True
  | integer _ => True
  | group _ inner _ => inner.Shaped
  | binary left _ right => left.Shaped ∧ right.Shaped ∧ ¬ right.IsBinary

def BodyPhrase.Shaped : BodyPhrase → Prop
  | expr phrase => phrase.Shaped
  | repeated phrase => phrase.inner.Shaped

def CommandPhrase.Shaped (c : CommandPhrase) : Prop := c.body.Shaped

attribute [local simp] derives_terminal derives_or derives_maybe derives_append_assoc
  derives_terminal_append derives_or_append derives_maybe_append

theorem derives_maybeLeaf (t : Terminal) (w : Option Word) :
    Derives (.maybe (.terminal t)) (maybeLeaf t w) := by
  cases w <;> simp [maybeLeaf]

theorem derives_many_flatMap {α : Type} {a : Expansion} {f : α → List Tree} {xs : List α}
    (each : ∀ x ∈ xs, Derives a (f x)) : Derives (.many a) (xs.flatMap f) := by
  refine derives_many.mpr ⟨xs.map f, by rw [List.flatMap_def], ?_⟩
  intro row member
  obtain ⟨x, mem, rfl⟩ := List.mem_map.mp member
  exact each x mem

theorem OptionPhrase.derives {o : OptionPhrase} (h : o.Shaped) :
    Derives (.rule .option) [o.tree] := by
  obtain ⟨kind, key, number⟩ := o
  have exploding : number = none → kind = .explode ∨ kind = .explodeAll := h
  have spelled := (Decidable.em (key.lexeme = ['!'])).symm
  cases kind <;> cases number <;>
    simp [tree, Rule.ofKind, terminal, maybeLeaf, derives_rule, Rule.expansion] at exploding ⊢
  all_goals exact spelled

theorem entryTrees_derives (entries : Option (Word × List (Word × Word))) :
    Derives (.maybe (.terminal .number ++ .many (.terminal .comma ++ .terminal .number)))
      (entryTrees entries) := by
  cases entries with
  | none => exact .absent _
  | some pair =>
    obtain ⟨first, others⟩ := pair
    simp only [entryTrees, derives_maybe, derives_terminal_append]
    refine .inr ⟨first, _, rfl, derives_many_flatMap ?_⟩
    rintro ⟨comma, number⟩ _
    simp

theorem ClausePhrase.derives (c : ClausePhrase) : Derives (.rule .clause) [c.tree] := by
  cases c with
  | targetList key opening entries closing =>
    have list : Derives (.rule .targetList) [.node .targetList
        (.leaf .openBracket opening :: entryTrees entries ++ [.leaf .closeBracket closing])] := by
      simp only [derives_rule, Rule.expansion, derives_append_assoc, derives_terminal_append]
      exact ⟨_, rfl, opening, _, rfl, .both (entryTrees_derives entries) (.terminal _ closing)⟩
    simpa [tree, derives_rule, Rule.expansion] using list
  | _ => simp [tree, derives_rule, Rule.expansion]

theorem scoringTrees_derives {clauses : List ClausePhrase} (h : clauses.length ≤ 3) :
    Derives (.maybe (.rule .scoring)) (scoringTrees clauses) := by
  match clauses, h with
  | [], _ => exact .absent _
  | [a], _ => exact .present (.rule (a.derives.append (.absent _)))
  | [a, b], _ => exact .present (.rule (a.derives.append (.present (b.derives.append (.absent _)))))
  | [a, b, c], _ =>
    exact .present (.rule (a.derives.append (.present (b.derives.append (.present c.derives)))))

theorem DicePhrase.derives {d : DicePhrase} (h : d.Shaped) : Derives (.rule .dice) [d.tree] := by
  obtain ⟨⟨count, marker, sides, options⟩, clauses⟩ := d
  have front := (derives_maybeLeaf .count count).append (.terminal .marker marker)
  have sided : Derives (.terminal .number ||| .terminal .fudge) [sides.tree] := by
    cases sides <;> simp [SidesPhrase.tree]
  have several : Derives (.many (.rule .option)) (options.flatMap fun o => [o.tree]) :=
    derives_many_flatMap fun o member => OptionPhrase.derives (h.1 o member)
  have scored := scoringTrees_derives h.2
  refine .rule ?_
  have row := ((front.append sided).append several).append scored
  simpa only [DiceHead.trees, ← List.map_eq_flatMap, List.append_assoc, List.cons_append,
    List.nil_append, Rule.expansion] using row

def operations : Expansion := .many (.terminal .operator ++ .rule .leaf)

theorem ExprPhrase.trees_of_not_binary {e : ExprPhrase} (h : ¬ e.IsBinary) :
    ∃ children, e.trees = [.node .leaf children] := by
  cases e with
  | binary => exact absurd trivial h
  | _ => exact ⟨_, rfl⟩

theorem derives_leaf_of_single {children : List Tree}
    (h : Derives (.rule .leaf ++ operations) [.node .leaf children]) :
    Derives (.rule .leaf) [.node .leaf children] := by
  obtain ⟨_, _, eq, derives, _⟩ := derives_rule_append.mp h
  cases eq
  exact .rule derives

theorem ExprPhrase.derives {e : ExprPhrase} (h : e.Shaped) :
    Derives (.rule .expr) [e.tree] := by
  refine .rule ?_
  have alone {children : List Tree} (leaf : Derives Rule.leaf.expansion children) :
      Derives (.rule .leaf ++ operations) [.node .leaf children] :=
    (Derives.rule leaf).append (.stop _)
  induction e with
  | dice term => exact alone (.first (.first (.first (DicePhrase.derives h))))
  | float word => exact alone (.first (.first (.second (.terminal _ word))))
  | integer word => exact alone (.first (.second (.terminal _ word)))
  | group opening inner closing ih =>
    have inside := (Derives.terminal .openParen opening).append (.rule (r := .expr) (ih h))
    exact alone (.second (inside.append (.terminal .closeParen closing)))
  | binary left operator right ih ihRight =>
    obtain ⟨shaped, shapedRight, single⟩ := h
    obtain ⟨children, eq⟩ := trees_of_not_binary single
    obtain ⟨first, more, split, leaf, rest⟩ := derives_append.mp (ih shaped)
    have operand : Derives (.rule .leaf) right.trees := by
      rw [eq]
      exact derives_leaf_of_single (eq ▸ ihRight shapedRight)
    have operation : Derives operations (.leaf .operator operator :: right.trees) := by
      simpa [operations] using
        Derives.again ((Derives.terminal .operator operator).append operand) (.stop _)
    rw [trees, split, List.append_assoc]
    exact leaf.append (rest.more operation)

theorem RepeatPhrase.derives {r : RepeatPhrase} (h : r.inner.Shaped) :
    Derives (.rule .repeatedExpr) [r.tree] := by
  have group := ((Derives.terminal .openParen r.opening).append (ExprPhrase.derives h)).append
    (.terminal .closeParen r.closing)
  have repeated := (group.append (.terminal .caret r.caret)).append
    (derives_maybeLeaf .repeatMode r.mode)
  refine .rule ?_
  simpa only [Rule.expansion, List.append_assoc, List.cons_append, List.nil_append] using
    repeated.append (.terminal .number r.times)

theorem BodyPhrase.derives {b : BodyPhrase} (h : b.Shaped) :
    Derives (.rule .repeatedExpr ||| .rule .expr) [b.tree] := by
  cases b with
  | expr phrase => exact .second (ExprPhrase.derives h)
  | repeated phrase => exact .first (RepeatPhrase.derives h)

theorem CommandPhrase.derives {c : CommandPhrase} (h : c.Shaped) :
    Derives (.rule .command) [c.tree] :=
  .rule ((BodyPhrase.derives h).append (derives_maybeLeaf .reason c.reason))

def Tree.Fits (tree : Tree) : Prop := ∀ t ∈ tree.tokens, t.Fits

def FitRow (trees : List Tree) : Prop := ∀ tree ∈ trees, tree.Fits

theorem fits_node {r : Rule} {children : List Tree} :
    (Tree.node r children).Fits ↔ FitRow children := by
  simp only [Tree.Fits, FitRow, tokens_node]
  induction children with
  | nil => simp
  | cons tree trees ih =>
    simp only [tokensOf_cons, List.mem_append, List.mem_cons, or_imp, forall_and, forall_eq]
    rw [ih]

@[simp] theorem fitRow_nil : FitRow [] := by simp [FitRow]

@[simp] theorem fitRow_append (first second : List Tree) :
    FitRow (first ++ second) ↔ FitRow first ∧ FitRow second := by
  simp [FitRow, or_imp, forall_and]

@[simp] theorem fitRow_leaf (t : Terminal) (w : Word) (trees : List Tree) :
    FitRow (.leaf t w :: trees) ↔ w.Fits t ∧ FitRow trees := by
  simp [FitRow, Tree.Fits, Token.Fits]

@[simp] theorem fitRow_node (r : Rule) (children trees : List Tree) :
    FitRow (.node r children :: trees) ↔ FitRow children ∧ FitRow trees := by
  have node : (Tree.node r children).Fits ↔ FitRow children := fits_node
  rw [← node]
  simp [FitRow]

theorem fitRow_scoringTrees {clauses : List ClausePhrase} :
    FitRow (scoringTrees clauses) ↔ ∀ c ∈ clauses, c.tree.Fits := by
  cases clauses with
  | nil => exact iff_of_true fitRow_nil nofun
  | cons c clauses =>
    rw [scoringTrees, if_neg (List.cons_ne_nil c clauses), fitRow_node, FitRow,
      List.forall_mem_map]
    exact and_iff_left fitRow_nil

theorem many_of_derives {α : Type} {P : α → Prop} {Q : Tree → Prop} {f : α → List Tree}
    {a : Expansion} (each : ∀ row, Derives a row → (∀ t ∈ row, Q t) → ∃ x, P x ∧ row = f x)
    {trees : List Tree} (h : Derives (.many a) trees) (all : ∀ t ∈ trees, Q t) :
    ∃ xs : List α, (∀ x ∈ xs, P x) ∧ trees = xs.flatMap f := by
  obtain ⟨rows, rfl, derives⟩ := derives_many.mp h
  clear h
  induction rows with
  | nil => exact ⟨[], by simp, rfl⟩
  | cons row rows ih =>
    simp only [List.flatten_cons, List.mem_append, or_imp, forall_and] at all
    obtain ⟨x, holds, rfl⟩ := each row (derives row (by simp)) all.1
    obtain ⟨xs, others, eq⟩ := ih (fun r member => derives r (List.mem_cons_of_mem _ member)) all.2
    exact ⟨x :: xs, by simpa using ⟨holds, others⟩, by simp [eq]⟩

theorem maybeLeaf_of_derives {t : Terminal} {trees : List Tree}
    (h : Derives (.maybe (.terminal t)) trees) : ∃ w, trees = maybeLeaf t w := by
  simp only [derives_maybe, derives_terminal] at h
  rcases h with rfl | ⟨w, rfl⟩
  · exact ⟨none, rfl⟩
  · exact ⟨some w, rfl⟩

theorem option_of_derives {trees : List Tree} (h : Derives (.rule .option) trees)
    (fit : FitRow trees) : ∃ o : OptionPhrase, o.Shaped ∧ trees = [o.tree] := by
  obtain ⟨_, rfl, row⟩ := derives_rule.mp h
  simp only [Rule.expansion, derives_or, derives_rule, derives_terminal_append, derives_or_append,
    derives_maybe, derives_terminal, or_assoc] at row
  rcases row with once | all | h | h | h | h | h | h
  · obtain ⟨_, rfl, key, _, rfl, rfl | ⟨number, rfl⟩⟩ := once
    · exact ⟨⟨.explode, key, none⟩, fun _ => .inl rfl, rfl⟩
    · exact ⟨⟨.explode, key, some number⟩, nofun, rfl⟩
  · obtain ⟨_, rfl, ⟨key, rest, rfl, number⟩ | ⟨key, rest, rfl, number⟩⟩ := all
    all_goals
      simp only [fitRow_node, fitRow_leaf, fitRow_nil, and_true] at fit
      have spelled : key.lexeme = _ := fit.1.2
      have shown : ∃ w, rest = maybeLeaf .number w :=
        maybeLeaf_of_derives (by simpa only [derives_maybe, derives_terminal] using number)
      obtain ⟨w, rfl⟩ := shown
      refine ⟨⟨.explodeAll, key, w⟩, fun _ => .inr rfl, ?_⟩
      simp [OptionPhrase.tree, OptionPhrase.terminal, Rule.ofKind, spelled]
  all_goals obtain ⟨_, rfl, key, _, rfl, number, rfl⟩ := h
  · exact ⟨⟨.reroll, key, some number⟩, nofun, rfl⟩
  · exact ⟨⟨.rerollAll, key, some number⟩, nofun, rfl⟩
  · exact ⟨⟨.keepHigh, key, some number⟩, nofun, rfl⟩
  · exact ⟨⟨.keepLow, key, some number⟩, nofun, rfl⟩
  · exact ⟨⟨.dropHigh, key, some number⟩, nofun, rfl⟩
  · exact ⟨⟨.dropLow, key, some number⟩, nofun, rfl⟩

theorem entryTrees_of_derives {trees : List Tree}
    (h : Derives (.maybe (.terminal .number ++ .many (.terminal .comma ++ .terminal .number)))
      trees)
    (fit : FitRow trees) : ∃ entries, trees = entryTrees entries := by
  rcases derives_maybe.mp h with rfl | h
  · exact ⟨none, rfl⟩
  · obtain ⟨first, rest, rfl, more⟩ := derives_terminal_append.mp h
    have others := many_of_derives (P := fun _ : Word × Word => True) (Q := Tree.Fits)
      (f := fun (comma, number) => [.leaf .comma comma, .leaf .number number]) ?_ more
      ((fitRow_leaf ..).mp fit).2
    · obtain ⟨others, _, rfl⟩ := others
      exact ⟨some (first, others), rfl⟩
    · intro row derives _
      simp only [derives_terminal_append, derives_terminal] at derives
      obtain ⟨comma, _, rfl, number, rfl⟩ := derives
      exact ⟨(comma, number), trivial, rfl⟩

theorem clause_of_derives {trees : List Tree} (h : Derives (.rule .clause) trees)
    (fit : FitRow trees) : ∃ c : ClausePhrase, trees = [c.tree] := by
  obtain ⟨_, rfl, row⟩ := derives_rule.mp h
  simp only [Rule.expansion, derives_or, derives_rule, derives_terminal_append,
    derives_append_assoc, derives_terminal, or_assoc] at row
  rcases row with ⟨_, rfl, key, _, rfl, ⟨number, rfl⟩ | list⟩ | double | failure
  · exact ⟨.target key number, rfl⟩
  · obtain ⟨_, rfl, opening, rest, rfl, list⟩ := list
    obtain ⟨_, _, rfl, inside, close⟩ := derives_append.mp list
    obtain ⟨closing, rfl⟩ := derives_terminal.mp close
    simp only [fitRow_node, fitRow_leaf, fitRow_append, fitRow_nil, and_true] at fit
    obtain ⟨entries, rfl⟩ := entryTrees_of_derives inside fit.2.2.1
    exact ⟨.targetList key opening entries closing, rfl⟩
  · obtain ⟨_, rfl, key, _, rfl, number, rfl⟩ := double
    exact ⟨.doubleTarget key number, rfl⟩
  · obtain ⟨_, rfl, key, _, rfl, number, rfl⟩ := failure
    exact ⟨.failure key number, rfl⟩

theorem scoring_of_derives {trees : List Tree} (h : Derives (.maybe (.rule .scoring)) trees)
    (fit : FitRow trees) :
    ∃ clauses : List ClausePhrase, clauses.length ≤ 3 ∧ trees = scoringTrees clauses := by
  rcases derives_maybe.mp h with rfl | present
  · exact ⟨[], by simp, rfl⟩
  · obtain ⟨_, rfl, row⟩ := derives_rule.mp present
    simp only [Rule.expansion, derives_append, derives_maybe] at row
    obtain ⟨_, _, rfl, first, rfl | ⟨_, _, rfl, second, rfl | third⟩⟩ := row
    all_goals simp only [fitRow_node, fitRow_append, fitRow_nil, and_true] at fit
    · obtain ⟨a, rfl⟩ := clause_of_derives first fit
      exact ⟨[a], by simp, rfl⟩
    · obtain ⟨a, rfl⟩ := clause_of_derives first fit.1
      obtain ⟨b, rfl⟩ := clause_of_derives second fit.2
      exact ⟨[a, b], by simp, rfl⟩
    · obtain ⟨a, rfl⟩ := clause_of_derives first fit.1
      obtain ⟨b, rfl⟩ := clause_of_derives second fit.2.1
      obtain ⟨c, rfl⟩ := clause_of_derives third fit.2.2
      exact ⟨[a, b, c], by simp, rfl⟩

theorem dice_of_derives {trees : List Tree} (h : Derives (.rule .dice) trees)
    (fit : FitRow trees) : ∃ d : DicePhrase, d.Shaped ∧ trees = [d.tree] := by
  obtain ⟨_, rfl, row⟩ := derives_rule.mp h
  obtain ⟨_, scoring, rfl, front, scored⟩ := derives_append.mp row
  obtain ⟨_, options, rfl, front, several⟩ := derives_append.mp front
  obtain ⟨_, sides, rfl, front, sided⟩ := derives_append.mp front
  obtain ⟨count, _, rfl, counted, marked⟩ := derives_append.mp front
  obtain ⟨marker, rfl⟩ := derives_terminal.mp marked
  obtain ⟨count, rfl⟩ := maybeLeaf_of_derives counted
  simp only [fitRow_node, fitRow_append, fitRow_nil, and_true] at fit
  obtain ⟨sides, rfl⟩ : ∃ phrase : SidesPhrase, sides = [phrase.tree] := by
    simp only [derives_or, derives_terminal] at sided
    rcases sided with ⟨word, rfl⟩ | ⟨word, rfl⟩
    · exact ⟨.number word, rfl⟩
    · exact ⟨.fudge word, rfl⟩
  obtain ⟨options, shaped, rfl⟩ :=
    many_of_derives (Q := Tree.Fits) (fun _ => option_of_derives) several fit.1.2
  obtain ⟨clauses, short, rfl⟩ := scoring_of_derives scored fit.2
  refine ⟨⟨⟨count, marker, sides, options⟩, clauses⟩, ⟨shaped, short⟩, ?_⟩
  simp [DicePhrase.tree, DiceHead.trees, List.map_eq_flatMap]

def ExprPhrase.fold (first : ExprPhrase) (operations : List (Word × ExprPhrase)) : ExprPhrase :=
  operations.foldl (fun left (operator, right) => .binary left operator right) first

theorem ExprPhrase.trees_fold (first : ExprPhrase) (operations : List (Word × ExprPhrase)) :
    (first.fold operations).trees =
      first.trees ++ operations.flatMap fun (w, e) => .leaf .operator w :: e.trees := by
  induction operations generalizing first with
  | nil => simp [fold]
  | cons operation operations ih =>
    have next := ih (.binary first operation.1 operation.2)
    simp only [fold, List.foldl_cons, trees] at next ⊢
    simp [next]

theorem ExprPhrase.shaped_fold {first : ExprPhrase} {operations : List (Word × ExprPhrase)}
    (h : first.Shaped) (each : ∀ operation ∈ operations, operation.2.Shaped ∧
      ¬ operation.2.IsBinary) : (first.fold operations).Shaped := by
  induction operations generalizing first with
  | nil => exact h
  | cons operation operations ih =>
    exact ih ⟨h, each operation (by simp)⟩ fun o member => each o (List.mem_cons_of_mem _ member)

theorem leaf_of_derives {n : Nat}
    (inner : ∀ tree : Tree, Derives (.rule .expr) [tree] → tree.Fits → sizeOf tree < n →
      ∃ e : ExprPhrase, e.Shaped ∧ tree = e.tree)
    {trees : List Tree} (h : Derives (.rule .leaf) trees)
    (all : ∀ t ∈ trees, t.Fits ∧ sizeOf t < n) :
    ∃ e : ExprPhrase, (e.Shaped ∧ ¬ e.IsBinary) ∧ trees = e.trees := by
  obtain ⟨children, rfl, row⟩ := derives_rule.mp h
  obtain ⟨fit, small⟩ := all _ (List.mem_singleton_self _)
  rw [fits_node] at fit
  rw [Rule.expansion] at row
  simp only [derives_or, derives_append_assoc, derives_terminal_append, derives_rule_append,
    derives_terminal, or_assoc] at row
  rcases row with dice | ⟨word, rfl⟩ | ⟨word, rfl⟩ | group
  · obtain ⟨d, shaped, rfl⟩ := dice_of_derives dice fit
    exact ⟨.dice d, ⟨shaped, id⟩, rfl⟩
  · exact ⟨.float word, ⟨trivial, id⟩, rfl⟩
  · exact ⟨.integer word, ⟨trivial, id⟩, rfl⟩
  · obtain ⟨opening, _, rfl, row, _, rfl, derives, closing, rfl⟩ := group
    simp only [fitRow_node, fitRow_leaf, fitRow_nil, and_true] at fit
    simp only [Tree.node.sizeOf_spec, List.cons.sizeOf_spec] at small
    have smaller : sizeOf (Tree.node .expr row) < n := by
      rw [Tree.node.sizeOf_spec]
      omega
    obtain ⟨e, shaped, eq⟩ := inner _ (.rule derives) (fits_node.mpr fit.2.1) smaller
    exact ⟨.group opening e closing, ⟨shaped, id⟩, by rw [eq]; rfl⟩

theorem expr_of_derives {tree : Tree} (h : Derives (.rule .expr) [tree]) (fit : tree.Fits) :
    ∃ e : ExprPhrase, e.Shaped ∧ tree = e.tree := by
  -- On the size of the tree: the expression in a group lies two nodes further down.
  induction size : sizeOf tree using Nat.strongRecOn generalizing tree with
  | ind n ih =>
    obtain ⟨row, eq, derives⟩ := derives_rule.mp h
    cases eq
    have operand {trees : List Tree} := @leaf_of_derives n
      (fun tree derives fit smaller => ih (sizeOf tree) smaller derives fit rfl) trees
    have all : ∀ t ∈ row, t.Fits ∧ sizeOf t < n := by
      intro t member
      have smaller := List.sizeOf_lt_of_mem member
      rw [Tree.node.sizeOf_spec] at size
      exact ⟨fits_node.mp fit t member, by omega⟩
    have operation : ∀ row, Derives (.terminal .operator ++ .rule .leaf) row →
        (∀ t ∈ row, t.Fits ∧ sizeOf t < n) → ∃ o : Word × ExprPhrase,
          (o.2.Shaped ∧ ¬ o.2.IsBinary) ∧ row = .leaf .operator o.1 :: o.2.trees := by
      intro row derives all
      obtain ⟨w, trees, rfl, leaf⟩ := derives_terminal_append.mp derives
      obtain ⟨e, shaped, rfl⟩ := operand leaf fun t member => all t (List.mem_cons_of_mem _ member)
      exact ⟨(w, e), shaped, rfl⟩
    obtain ⟨_, rest, rfl, leaf, more⟩ := derives_append.mp derives
    rw [List.forall_mem_append] at all
    obtain ⟨first, shaped, rfl⟩ := operand leaf all.1
    obtain ⟨operations, each, rfl⟩ := many_of_derives operation more all.2
    refine ⟨first.fold operations, ExprPhrase.shaped_fold shaped.1 each, ?_⟩
    rw [ExprPhrase.tree, ExprPhrase.trees_fold]

theorem repeat_of_derives {trees : List Tree} (h : Derives (.rule .repeatedExpr) trees)
    (fit : FitRow trees) : ∃ r : RepeatPhrase, r.inner.Shaped ∧ trees = [r.tree] := by
  obtain ⟨row, rfl, derives⟩ := derives_rule.mp h
  rw [Rule.expansion] at derives
  simp only [derives_append_assoc, derives_terminal_append, derives_rule_append] at derives
  obtain ⟨opening, _, rfl, inner, _, rfl, expr, closing, _, rfl, caret, _, rfl, last⟩ := derives
  obtain ⟨_, _, rfl, moded, numbered⟩ := derives_append.mp last
  obtain ⟨mode, rfl⟩ := maybeLeaf_of_derives moded
  obtain ⟨times, rfl⟩ := derives_terminal.mp numbered
  simp only [fitRow_node, fitRow_leaf, fitRow_append] at fit
  obtain ⟨e, shaped, eq⟩ := expr_of_derives (.rule expr) (fits_node.mpr fit.1.2.1)
  exact ⟨⟨opening, e, closing, caret, mode, times⟩, shaped, by simp [RepeatPhrase.tree, eq]⟩

/-- Every derivation of a command from fitting words is the tree of a phrase. -/
theorem command_of_derives {tree : Tree} (h : Derives (.rule .command) [tree]) (fit : tree.Fits) :
    ∃ c : CommandPhrase, c.Shaped ∧ tree = c.tree := by
  obtain ⟨row, eq, derives⟩ := derives_rule.mp h
  cases eq
  rw [fits_node] at fit
  obtain ⟨_, _, rfl, body, last⟩ := derives_append.mp derives
  obtain ⟨reason, rfl⟩ := maybeLeaf_of_derives last
  rw [fitRow_append] at fit
  rcases derives_or.mp body with repeated | expr
  · obtain ⟨r, shaped, rfl⟩ := repeat_of_derives repeated fit.1
    exact ⟨⟨.repeated r, reason⟩, shaped, rfl⟩
  · obtain ⟨row, rfl, derives⟩ := derives_rule.mp expr
    obtain ⟨e, shaped, eq⟩ := expr_of_derives expr (fit.1 _ (by simp))
    exact ⟨⟨.expr e, reason⟩, shaped, by rw [eq]; rfl⟩

end DiceNotation.Grammar
