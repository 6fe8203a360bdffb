import DiceNotation.Proofs.Command.WellFormed
import DiceNotation.Proofs.Grammar.Spelled
import Mathlib

/-!
The texts that a command keeps. Each is what a phrase of it spells, without the blanks in front,
and is built again into the part that was built from that phrase. The texts of the dice terms stand
in the text of the command in their order, apart from each other.
-/
namespace DiceNotation

open Text Grammar

variable {limits : Limits}

namespace Grammar

def Word.flush (w : Word) : Word := ⟨[], w.lexeme⟩

def DicePhrase.flush (d : DicePhrase) : DicePhrase :=
  match d.head.count with
  | some count => { d with head := { d.head with count := some count.flush } }
  | none => { d with head := { d.head with marker := d.head.marker.flush } }

def ExprPhrase.flush : ExprPhrase → ExprPhrase
  | dice term => dice term.flush
  | float word => float word.flush
  | integer word => integer word.flush
  | group opening inner closing => group opening.flush inner closing
  | binary left operator right => binary left.flush operator right

def BodyPhrase.flush : BodyPhrase → BodyPhrase
  | expr phrase => expr phrase.flush
  | repeated phrase => repeated { phrase with opening := phrase.opening.flush }

theorem Word.Fits.flush {w : Word} {t : Terminal} (fits : w.Fits t) : w.flush.Fits t :=
  ⟨nofun, fits.2⟩

def Flushed (spelling flushed : List Char) : Prop :=
  ∀ rest, (spelling ++ rest).dropWhile isBlank = flushed ++ rest

theorem Flushed.append {s t : List Char} (h : Flushed s t) (rest : List Char) :
    Flushed (s ++ rest) (t ++ rest) := by
  intro more
  rw [List.append_assoc, List.append_assoc]
  exact h (rest ++ more)

theorem Flushed.slice_eq {s t : List Char} (h : Flushed s t) : slice s = String.ofList t := by
  have dropped := h []
  rw [List.append_nil, List.append_nil] at dropped
  rw [slice, dropped]

theorem Flushed.again {s t : List Char} (h : Flushed s t) : slice t = slice s := by
  have dropped := h []
  rw [List.append_nil, List.append_nil] at dropped
  rw [slice, slice, ← dropped, dropWhile_idem]

theorem Word.flushed {w : Word} {t : Terminal} (fits : w.Fits t) :
    Flushed w.spell w.flush.spell := by
  intro rest
  simpa [spell, flush] using (Splits.gap_eq fits rest).2

theorem DicePhrase.flushed {d : DicePhrase} (fits : d.tree.Fits) :
    Flushed d.spell d.flush.spell := by
  obtain ⟨⟨count, marker, sides, options⟩, clauses⟩ := d
  rw [tree, fits_node, DiceHead.trees] at fits
  cases count with
  | none =>
    simp only [maybeLeaf, Option.toList_none, List.map_nil, List.nil_append, fitRow_append,
      fitRow_leaf] at fits
    exact (((Word.flushed fits.1.1).append _).append _).append _
  | some count =>
    simp only [maybeLeaf, Option.toList_some, List.map_cons, List.map_nil, List.cons_append,
      List.nil_append, fitRow_leaf] at fits
    exact ((((Word.flushed fits.1).append _).append _).append _).append _

theorem DicePhrase.flush_fits {d : DicePhrase} (fits : d.tree.Fits) : d.flush.tree.Fits := by
  obtain ⟨⟨count, marker, sides, options⟩, clauses⟩ := d
  rw [tree, fits_node, DiceHead.trees] at fits ⊢
  cases count with
  | none =>
    simp only [flush, maybeLeaf, Option.toList_none, List.map_nil, List.nil_append, fitRow_append,
      fitRow_leaf] at fits ⊢
    exact ⟨⟨fits.1.1.flush, fits.1.2⟩, fits.2⟩
  | some count =>
    simp only [flush, maybeLeaf, Option.toList_some, List.map_cons, List.map_nil, List.cons_append,
      List.nil_append, fitRow_leaf] at fits ⊢
    exact ⟨fits.1.flush, fits.2⟩

theorem DicePhrase.flush_shaped {d : DicePhrase} (shaped : d.Shaped) : d.flush.Shaped := by
  unfold flush
  split <;> exact shaped

theorem DicePhrase.build_flush {d : DicePhrase} (fits : d.tree.Fits) :
    d.flush.build limits = d.build limits := by
  have text := (flushed fits).again
  obtain ⟨⟨count, marker, sides, options⟩, clauses⟩ := d
  cases count <;> simp only [build, text] <;> rfl

theorem ExprPhrase.fits_dice {d : DicePhrase} : FitRow (dice d).trees ↔ d.tree.Fits := by
  simp [trees, DicePhrase.tree, fits_node]

theorem ExprPhrase.flushed {e : ExprPhrase} (fits : e.tree.Fits) :
    Flushed e.spell e.flush.spell := by
  rw [tree, fits_node] at fits
  induction e with
  | dice term => exact DicePhrase.flushed (fits_dice.mp fits)
  | float word =>
    simp only [trees, fitRow_node, fitRow_leaf] at fits
    exact Word.flushed fits.1.1
  | integer word =>
    simp only [trees, fitRow_node, fitRow_leaf] at fits
    exact Word.flushed fits.1.1
  | group opening inner closing ih =>
    simp only [trees, fitRow_node, fitRow_leaf] at fits
    exact ((Word.flushed fits.1.1).append _).append _
  | binary left operator right ih ihRight =>
    rw [trees, fitRow_append] at fits
    exact ((ih fits.1).append _).append _

theorem ExprPhrase.flush_fits {e : ExprPhrase} (fits : e.tree.Fits) : e.flush.tree.Fits := by
  rw [tree, fits_node] at fits ⊢
  induction e with
  | dice term => exact fits_dice.mpr (DicePhrase.flush_fits (fits_dice.mp fits))
  | float word =>
    simp only [flush, trees, fitRow_node, fitRow_leaf] at fits ⊢
    exact ⟨⟨fits.1.1.flush, fits.1.2⟩, fits.2⟩
  | integer word =>
    simp only [flush, trees, fitRow_node, fitRow_leaf] at fits ⊢
    exact ⟨⟨fits.1.1.flush, fits.1.2⟩, fits.2⟩
  | group opening inner closing ih =>
    simp only [flush, trees, fitRow_node, fitRow_leaf] at fits ⊢
    exact ⟨⟨fits.1.1.flush, fits.1.2⟩, fits.2⟩
  | binary left operator right ih ihRight =>
    rw [trees, fitRow_append] at fits
    rw [flush, trees, fitRow_append]
    exact ⟨ih fits.1, fits.2⟩

theorem ExprPhrase.flush_shaped {e : ExprPhrase} (shaped : e.Shaped) : e.flush.Shaped := by
  induction e with
  | dice term => exact DicePhrase.flush_shaped shaped
  | float word => trivial
  | integer word => trivial
  | group opening inner closing ih => exact shaped
  | binary left operator right ih ihRight => exact ⟨ih shaped.1, shaped.2⟩

theorem ExprPhrase.build_flush {e : ExprPhrase} (fits : e.tree.Fits) :
    e.flush.build limits = e.build limits := by
  rw [tree, fits_node] at fits
  induction e with
  | dice term => simp only [flush, build, DicePhrase.build_flush (fits_dice.mp fits)]
  | float word => rfl
  | integer word => rfl
  | group opening inner closing ih => rfl
  | binary left operator right ih ihRight =>
    rw [trees, fitRow_append] at fits
    simp only [flush, build, ih fits.1]

theorem BodyPhrase.flushed {b : BodyPhrase} (fits : b.tree.Fits) :
    Flushed b.spell b.flush.spell := by
  cases b with
  | expr phrase => exact ExprPhrase.flushed fits
  | repeated r =>
    simp only [tree, RepeatPhrase.tree, fits_node, List.cons_append, fitRow_leaf] at fits
    exact (((((Word.flushed fits.1).append _).append _).append _).append _).append _

theorem BodyPhrase.flush_fits {b : BodyPhrase} (fits : b.tree.Fits) : b.flush.tree.Fits := by
  cases b with
  | expr phrase => exact ExprPhrase.flush_fits fits
  | repeated r =>
    simp only [flush, tree, RepeatPhrase.tree, fits_node, List.cons_append, fitRow_leaf] at fits ⊢
    exact ⟨fits.1.flush, fits.2⟩

theorem BodyPhrase.flush_shaped {b : BodyPhrase} (shaped : b.Shaped) : b.flush.Shaped := by
  cases b with
  | expr phrase => exact ExprPhrase.flush_shaped shaped
  | repeated r => exact shaped

theorem BodyPhrase.build_flush {b : BodyPhrase} (fits : b.tree.Fits) :
    b.flush.build limits = b.build limits := by
  cases b with
  | expr phrase => simp only [flush, build, ExprPhrase.build_flush fits]
  | repeated r => rfl

end Grammar

/-- What a body spells is built into that body again. -/
theorem Command.parse_slice {b : BodyPhrase} {body : Body} (shaped : b.Shaped)
    (fits : b.tree.Fits) (built : b.build limits = .ok body) :
    Command.parse (slice b.spell) limits = .ok ⟨body, none, slice b.spell⟩ := by
  have flushed := b.flushed fits
  have row : (CommandPhrase.mk b.flush none).tree.Fits := by
    rw [CommandPhrase.tree, fits_node]
    intro tree member
    obtain rfl := List.mem_singleton.mp member
    exact b.flush_fits fits
  have reading :=
    read_spelled (c := ⟨b.flush, none⟩) (b.flush_shaped shaped) row rfl [] (by simp)
  have spelled : (CommandPhrase.mk b.flush none).spell ++ [] = (slice b.spell).toList := by
    rw [flushed.slice_eq, String.toList_ofList]
    simp [CommandPhrase.spell, spellOption]
  rw [spelled] at reading
  rw [Command.parse, reading]
  simp only [CommandPhrase.build, b.build_flush fits, built, flushed.again]
  rfl

/-- The parts stand in the text one behind the other and do not overlap. -/
inductive StandInOrder : List String → List Char → Prop where
  | nil (text : List Char) : StandInOrder [] text
  | cons (skipped : List Char) (part : String) {parts : List String} {rest : List Char} :
      StandInOrder parts rest → StandInOrder (part :: parts) (skipped ++ part.toList ++ rest)

namespace StandInOrder

variable {parts others : List String} {text more : List Char}

theorem behind (h : StandInOrder parts text) (front : List Char) :
    StandInOrder parts (front ++ text) := by
  cases h with
  | nil => exact .nil _
  | @cons skipped part parts rest ordered =>
    have moved := StandInOrder.cons (front ++ skipped) part ordered
    simpa only [List.append_assoc] using moved

theorem append (h : StandInOrder parts text) (k : StandInOrder others more) :
    StandInOrder (parts ++ others) (text ++ more) := by
  induction h with
  | nil text => exact k.behind text
  | cons skipped part rest ih =>
    rw [List.append_assoc]
    exact .cons skipped part ih

theorem before (h : StandInOrder parts text) (more : List Char) :
    StandInOrder parts (text ++ more) := by
  have whole := h.append (.nil more)
  rwa [List.append_nil] at whole

theorem slice (s : List Char) : StandInOrder [slice s] s := by
  have gap := List.takeWhile_append_dropWhile (p := isBlank) (l := s)
  have alone := StandInOrder.cons (s.takeWhile isBlank) (Grammar.slice s) (.nil [])
  rwa [Grammar.slice, String.toList_ofList, gap, List.append_nil] at alone

end StandInOrder

theorem Grammar.DicePhrase.build_text {d : DicePhrase} {t : DiceTerm}
    (h : d.build limits = .ok t) : t.text = slice d.spell := by
  obtain ⟨modifiers, _, h⟩ := bind_eq_ok h
  obtain ⟨clauses, _, h⟩ := bind_eq_ok h
  obtain ⟨count, _, h⟩ := bind_eq_ok h
  obtain ⟨sides, _, h⟩ := bind_eq_ok h
  unfold DiceTerm.assemble at h
  split at h
  · cases h
  · cases sides with
    | none =>
      cases h
      rfl
    | some sides =>
      dsimp only at h
      split at h
      · cases h
      · split at h
        · cases h
        · obtain ⟨scoring, _, rfl⟩ := map_eq_ok h
          rfl

theorem Grammar.RepeatPhrase.build_inner {p : RepeatPhrase} {r : Repetition}
    (h : p.build limits = .ok r) :
    p.inner.build limits = .ok r.inner ∧ r.text = slice p.inner.spell := by
  obtain ⟨inner, built, h⟩ := bind_eq_ok h
  obtain ⟨times, _, h⟩ := bind_eq_ok h
  unfold Repetition.assemble at h
  split at h
  · cases h
  · split at h
    · cases h
    · cases h
      exact ⟨built, rfl⟩

/-- The dice terms of an expression: where their texts stand, and what these are built into. -/
theorem Grammar.ExprPhrase.build_diceTerms {p : ExprPhrase} {e : Expression} (shaped : p.Shaped)
    (fits : p.tree.Fits) (h : p.build limits = .ok e) :
    StandInOrder (e.diceTerms.map (·.text)) p.spell ∧
      ∀ t ∈ e.diceTerms, Command.parse t.text limits = .ok ⟨.once (.dice t), none, t.text⟩ := by
  rw [tree, fits_node] at fits
  induction p generalizing e with
  | dice d =>
    obtain ⟨t, built, h⟩ := bind_eq_ok h
    cases h
    have text := DicePhrase.build_text built
    have body : (BodyPhrase.expr (dice d)).build limits = .ok (.once (.dice t)) := by
      simp only [BodyPhrase.build, build, built]
      rfl
    have again := Command.parse_slice (b := .expr (dice d)) shaped (fits_node.mpr fits) body
    change Command.parse (slice d.spell) limits = .ok ⟨_, none, slice d.spell⟩ at again
    rw [← text] at again
    refine ⟨?_, by simpa [Expression.diceTerms] using again⟩
    have stands := StandInOrder.slice d.spell
    rw [← text] at stands
    exact stands
  | float word =>
    cases h
    exact ⟨.nil _, by simp [Expression.diceTerms]⟩
  | integer word =>
    obtain ⟨n, _, h⟩ := bind_eq_ok h
    cases h
    exact ⟨.nil _, by simp [Expression.diceTerms]⟩
  | group opening inner closing ih =>
    obtain ⟨e, built, h⟩ := bind_eq_ok h
    cases h
    simp only [trees, fitRow_node, fitRow_leaf] at fits
    obtain ⟨ordered, again⟩ := ih shaped fits.1.2.1 built
    exact ⟨(ordered.behind _).before _, again⟩
  | binary left operator right ih ihRight =>
    obtain ⟨a, builtLeft, h⟩ := bind_eq_ok h
    obtain ⟨b, builtRight, h⟩ := bind_eq_ok h
    cases h
    obtain ⟨shapedLeft, shapedRight, _⟩ := shaped
    simp only [trees, fitRow_append, fitRow_leaf] at fits
    obtain ⟨ordered, again⟩ := ih shapedLeft fits.1 builtLeft
    obtain ⟨orderedRight, againRight⟩ := ihRight shapedRight fits.2.2 builtRight
    refine ⟨?_, ?_⟩
    · rw [Expression.diceTerms, List.map_append]
      exact (ordered.before _).append orderedRight
    · intro t member
      rcases List.mem_append.mp member with first | second
      · exact again t first
      · exact againRight t second

/-- The texts that a command keeps are built again into the parts that keep them. -/
theorem Command.slices_reparse {text : String} {limits : Limits} {command : Command}
    (h : Command.parse text limits = .ok command) :
    StandInOrder (command.diceTerms.map (·.text)) text.toList ∧
      (∀ t ∈ command.diceTerms,
        Command.parse t.text limits = .ok ⟨.once (.dice t), none, t.text⟩) ∧
      (∀ r, command.body = .repeated r →
        Command.parse r.text limits = .ok ⟨.once r.inner, none, r.text⟩) ∧
      Command.parse command.text limits = .ok ⟨command.body, none, command.text⟩ := by
  unfold Command.parse at h
  cases reading : read text.toList with
  | error place =>
    rw [reading] at h
    cases h
  | ok c =>
    rw [reading] at h
    obtain ⟨shaped, blanks, _, fits, spelled, _⟩ := parses_of_read reading
    obtain ⟨b, reason⟩ := c
    obtain ⟨body, built, h⟩ := bind_eq_ok h
    cases h
    rw [CommandPhrase.tree, fits_node] at fits
    have fitsBody : b.tree.Fits := fits _ List.mem_cons_self
    have again := Command.parse_slice shaped fitsBody built
    rw [CommandPhrase.spell_tree, CommandPhrase.spell, List.append_assoc] at spelled
    rw [spelled]
    cases b with
    | expr p =>
      obtain ⟨e, builtExpr, h⟩ := bind_eq_ok built
      cases h
      obtain ⟨ordered, terms⟩ := p.build_diceTerms shaped fitsBody builtExpr
      exact ⟨ordered.before _, terms, by simp, again⟩
    | repeated p =>
      obtain ⟨r, builtRepeat, h⟩ := bind_eq_ok built
      cases h
      obtain ⟨builtInner, text⟩ := p.build_inner builtRepeat
      have fitsInner : p.inner.tree.Fits := by
        have row := fits_node.mp fitsBody
        exact row _ (List.mem_cons_of_mem _ List.mem_cons_self)
      obtain ⟨ordered, terms⟩ := p.inner.build_diceTerms shaped fitsInner builtInner
      have inside : StandInOrder (r.inner.diceTerms.map (·.text)) p.spell :=
        ((((ordered.behind _).before _).before _).before _).before _
      have innerBody : (BodyPhrase.expr p.inner).build limits = .ok (.once r.inner) := by
        simp only [BodyPhrase.build, builtInner]
        rfl
      have againInner := Command.parse_slice (b := .expr p.inner) shaped fitsInner innerBody
      refine ⟨inside.before _, terms, ?_, again⟩
      intro repetition same
      cases same
      rw [text]
      exact againInner

theorem repeated_score_slices_reparse :
    ∃ command r, Command.parse " ( 2d6K1 +1d4 t3)^ +3 : loot" {} = .ok command ∧
      command.body = .repeated r ∧ r.text = "2d6K1 +1d4 t3" ∧
      StandInOrder ["2d6K1", "1d4 t3"] " ( 2d6K1 +1d4 t3)^ +3 : loot".toList ∧
      Command.parse "1d4 t3" {} = .ok ⟨.once (.dice
        ⟨1, some 4, [], some ⟨some 3, none, none, none⟩, "1d4 t3"⟩), none, "1d4 t3"⟩ ∧
      Command.parse r.text {} = .ok ⟨.once r.inner, none, r.text⟩ ∧
      Command.parse command.text {} = .ok ⟨command.body, none, command.text⟩ := by
  have parsed : Command.parse " ( 2d6K1 +1d4 t3)^ +3 : loot" {} = .ok
      ⟨.repeated ⟨.binary .add (.dice ⟨2, some 6, [⟨.keepHigh, some 1⟩], none, "2d6K1"⟩)
        (.dice ⟨1, some 4, [], some ⟨some 3, none, none, none⟩, "1d4 t3"⟩), 3, .sum,
          "2d6K1 +1d4 t3"⟩, some "loot", "( 2d6K1 +1d4 t3)^ +3"⟩ := by cbv
  obtain ⟨ordered, terms, inner, whole⟩ := Command.slices_reparse parsed
  have scored := terms ⟨1, some 4, [], some ⟨some 3, none, none, none⟩, "1d4 t3"⟩ (by decide)
  exact ⟨_, _, parsed, rfl, rfl, ordered, scored, inner _ rfl, whole⟩

end DiceNotation
