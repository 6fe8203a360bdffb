import DiceNotation.Grammar.Phrase
import DiceNotation.Proofs.Grammar.Pattern

/-!
The grammar of commands: its rules as they are written down, the derivation trees that they allow,
and the words at the leaves of a tree.
-/
namespace DiceNotation.Grammar

open DiceNotation.Text

inductive Rule where
  | command | repeatedExpr | expr | leaf | dice | option
  | explode | explodeAll | reroll | rerollAll | keepHigh | keepLow | dropHigh | dropLow
  | scoring | clause | target | targetList | doubleTarget | failure
  deriving DecidableEq, Repr

inductive Expansion where
  | terminal (t : Terminal)
  | rule (r : Rule)
  | both (first second : Expansion)
  | either (first second : Expansion)
  | maybe (inner : Expansion)
  | many (inner : Expansion)
  deriving DecidableEq, Repr

namespace Expansion

instance : Append Expansion := ⟨both⟩

instance : OrOp Expansion := ⟨either⟩

end Expansion

open Expansion in
def Rule.expansion : Rule → Expansion
  | command => (rule repeatedExpr ||| rule expr) ++ maybe (terminal .reason)
  | repeatedExpr =>
      terminal .openParen ++ rule expr ++ terminal .closeParen ++ terminal .caret ++
        maybe (terminal .repeatMode) ++ terminal .number
  | expr => rule leaf ++ many (terminal .operator ++ rule leaf)
  | leaf =>
      rule dice ||| terminal .float ||| terminal .integer |||
        terminal .openParen ++ rule expr ++ terminal .closeParen
  | dice =>
      maybe (terminal .count) ++ terminal .marker ++ (terminal .number ||| terminal .fudge) ++
        many (rule option) ++ maybe (rule scoring)
  | option =>
      rule explode ||| rule explodeAll ||| rule reroll ||| rule rerollAll ||| rule keepHigh |||
        rule keepLow ||| rule dropHigh ||| rule dropLow
  | explode => terminal .explode ++ maybe (terminal .number)
  | explodeAll => (terminal .explodeAll ||| terminal .bang) ++ maybe (terminal .number)
  | reroll => terminal .reroll ++ terminal .number
  | rerollAll => terminal .rerollAll ++ terminal .number
  | keepHigh => terminal .keepHigh ++ terminal .number
  | keepLow => terminal .keepLow ++ terminal .number
  | dropHigh => terminal .dropHigh ++ terminal .number
  | dropLow => terminal .dropLow ++ terminal .number
  | scoring => rule clause ++ maybe (rule clause ++ maybe (rule clause))
  | clause => rule target ||| rule doubleTarget ||| rule failure
  | target => terminal .target ++ (terminal .number ||| rule targetList)
  | targetList =>
      terminal .openBracket ++
        maybe (terminal .number ++ many (terminal .comma ++ terminal .number)) ++
        terminal .closeBracket
  | doubleTarget => terminal .doubleTarget ++ terminal .number
  | failure => terminal .failure ++ terminal .number

/-- A derivation tree. The children of a node are what its rule was expanded to. -/
inductive Tree where
  | leaf (t : Terminal) (word : Word)
  | node (r : Rule) (children : List Tree)

inductive Derives : Expansion → List Tree → Prop where
  | terminal (t : Terminal) (w : Word) : Derives (.terminal t) [.leaf t w]
  | rule {r : Rule} {trees : List Tree} (h : Derives r.expansion trees) :
      Derives (.rule r) [.node r trees]
  | both {a b : Expansion} {first second : List Tree} (h : Derives a first) (k : Derives b second) :
      Derives (.both a b) (first ++ second)
  | first {a b : Expansion} {trees : List Tree} (h : Derives a trees) : Derives (.either a b) trees
  | second {a b : Expansion} {trees : List Tree} (h : Derives b trees) : Derives (.either a b) trees
  | absent (a : Expansion) : Derives (.maybe a) []
  | present {a : Expansion} {trees : List Tree} (h : Derives a trees) : Derives (.maybe a) trees
  | stop (a : Expansion) : Derives (.many a) []
  | again {a : Expansion} {first more : List Tree} (h : Derives a first)
      (k : Derives (.many a) more) : Derives (.many a) (first ++ more)

structure Token where
  terminal : Terminal
  word : Word
  deriving DecidableEq, Repr

def Word.Fits (w : Word) (t : Terminal) : Prop :=
  (∀ c ∈ w.gap, isBlank c = true) ∧ t.Matches w.lexeme

def Token.Fits (t : Token) : Prop := t.word.Fits t.terminal

def Token.spell (t : Token) : List Char := t.word.spell

def spellTokens (tokens : List Token) : List Char := tokens.flatMap Token.spell

mutual

def Tree.tokens : Tree → List Token
  | .leaf t word => [⟨t, word⟩]
  | .node _ children => tokensOf children

def tokensOf : List Tree → List Token
  | [] => []
  | tree :: trees => tree.tokens ++ tokensOf trees

end

@[simp] theorem tokens_leaf (t : Terminal) (w : Word) : (Tree.leaf t w).tokens = [⟨t, w⟩] := by
  simp [Tree.tokens]

@[simp] theorem tokens_node (r : Rule) (trees : List Tree) :
    (Tree.node r trees).tokens = tokensOf trees := by
  simp [Tree.tokens]

@[simp] theorem tokensOf_nil : tokensOf [] = [] := by simp [tokensOf]

@[simp] theorem tokensOf_cons (tree : Tree) (trees : List Tree) :
    tokensOf (tree :: trees) = tree.tokens ++ tokensOf trees := by
  simp [tokensOf]

@[simp] theorem tokensOf_append (first second : List Tree) :
    tokensOf (first ++ second) = tokensOf first ++ tokensOf second := by
  induction first with
  | nil => simp
  | cons tree trees ih => simp [ih]

def Derivable (terminals : List Terminal) : Prop :=
  ∃ tree, Derives (.rule .command) [tree] ∧ tree.tokens.map Token.terminal = terminals

section Forms

variable {a b : Expansion} {trees : List Tree}

theorem derives_terminal {t : Terminal} :
    Derives (.terminal t) trees ↔ ∃ w, trees = [.leaf t w] := by
  constructor
  · rintro ⟨⟩
    exact ⟨_, rfl⟩
  · rintro ⟨w, rfl⟩
    exact .terminal t w

theorem derives_rule {r : Rule} :
    Derives (.rule r) trees ↔
      ∃ children, trees = [.node r children] ∧ Derives r.expansion children := by
  constructor
  · intro h
    cases h with
    | rule h => exact ⟨_, rfl, h⟩
  · rintro ⟨children, rfl, h⟩
    exact .rule h

theorem derives_append :
    Derives (a ++ b) trees ↔ ∃ first second, trees = first ++ second ∧ Derives a first ∧
      Derives b second := by
  change Derives (.both a b) trees ↔ _
  constructor
  · intro h
    cases h with
    | both h k => exact ⟨_, _, rfl, h, k⟩
  · rintro ⟨first, second, rfl, h, k⟩
    exact .both h k

theorem Derives.append {first second : List Tree} (h : Derives a first) (k : Derives b second) :
    Derives (a ++ b) (first ++ second) :=
  .both h k

theorem derives_or : Derives (a ||| b) trees ↔ Derives a trees ∨ Derives b trees := by
  change Derives (.either a b) trees ↔ _
  constructor
  · intro h
    cases h with
    | first h => exact .inl h
    | second h => exact .inr h
  · rintro (h | h)
    · exact .first h
    · exact .second h

theorem derives_maybe : Derives (.maybe a) trees ↔ trees = [] ∨ Derives a trees := by
  constructor
  · intro h
    cases h with
    | absent => exact .inl rfl
    | present h => exact .inr h
  · rintro (rfl | h)
    · exact .absent a
    · exact .present h

theorem derives_many :
    Derives (.many a) trees ↔ ∃ rows : List (List Tree), trees = rows.flatten ∧
      ∀ row ∈ rows, Derives a row := by
  constructor
  · intro h
    generalize same : Expansion.many a = x at h
    induction h with
    | stop => exact ⟨[], rfl, by simp⟩
    | again h k _ ih =>
      cases same
      obtain ⟨rows, rfl, each⟩ := ih rfl
      exact ⟨_ :: rows, rfl, by simpa using ⟨h, each⟩⟩
    | _ => cases same
  · rintro ⟨rows, rfl, each⟩
    induction rows with
    | nil => exact .stop a
    | cons row rows ih =>
      exact .again (each row (by simp)) (ih fun x mem => each x (List.mem_cons_of_mem row mem))

theorem Derives.more {first second : List Tree} (h : Derives (.many a) first)
    (k : Derives (.many a) second) : Derives (.many a) (first ++ second) := by
  obtain ⟨rows, rfl, each⟩ := derives_many.mp h
  obtain ⟨others, rfl, eachOther⟩ := derives_many.mp k
  refine derives_many.mpr ⟨rows ++ others, by simp, ?_⟩
  intro row member
  rcases List.mem_append.mp member with member | member
  · exact each row member
  · exact eachOther row member

variable {c : Expansion}

theorem derives_append_assoc :
    Derives (a ++ b ++ c) trees ↔ Derives (a ++ (b ++ c)) trees := by
  constructor
  · intro h
    obtain ⟨_, third, rfl, h, hc⟩ := derives_append.mp h
    obtain ⟨first, second, rfl, ha, hb⟩ := derives_append.mp h
    exact derives_append.mpr ⟨first, second ++ third, by simp, ha, .both hb hc⟩
  · intro h
    obtain ⟨first, _, rfl, ha, h⟩ := derives_append.mp h
    obtain ⟨second, third, rfl, hb, hc⟩ := derives_append.mp h
    exact derives_append.mpr ⟨first ++ second, third, by simp, .both ha hb, hc⟩

theorem derives_terminal_append {t : Terminal} :
    Derives (.terminal t ++ b) trees ↔ ∃ w rest, trees = .leaf t w :: rest ∧ Derives b rest := by
  simp only [derives_append, derives_terminal]
  constructor
  · rintro ⟨_, rest, rfl, ⟨w, rfl⟩, h⟩
    exact ⟨w, rest, rfl, h⟩
  · rintro ⟨w, rest, rfl, h⟩
    exact ⟨[.leaf t w], rest, rfl, ⟨w, rfl⟩, h⟩

theorem derives_rule_append {r : Rule} :
    Derives (.rule r ++ b) trees ↔
      ∃ children rest, trees = .node r children :: rest ∧ Derives r.expansion children ∧
        Derives b rest := by
  simp only [derives_append, derives_rule]
  constructor
  · rintro ⟨_, rest, rfl, ⟨children, rfl, h⟩, k⟩
    exact ⟨children, rest, rfl, h, k⟩
  · rintro ⟨children, rest, rfl, h, k⟩
    exact ⟨[.node r children], rest, rfl, ⟨children, rfl, h⟩, k⟩

theorem derives_or_append :
    Derives ((a ||| b) ++ c) trees ↔ Derives (a ++ c) trees ∨ Derives (b ++ c) trees := by
  simp only [derives_append, derives_or]
  constructor
  · rintro ⟨first, second, rfl, ha | hb, k⟩
    · exact .inl ⟨first, second, rfl, ha, k⟩
    · exact .inr ⟨first, second, rfl, hb, k⟩
  · rintro (⟨first, second, rfl, h, k⟩ | ⟨first, second, rfl, h, k⟩)
    · exact ⟨first, second, rfl, .inl h, k⟩
    · exact ⟨first, second, rfl, .inr h, k⟩

theorem derives_maybe_append :
    Derives (.maybe a ++ b) trees ↔ Derives b trees ∨ Derives (a ++ b) trees := by
  simp only [derives_append, derives_maybe]
  constructor
  · rintro ⟨first, second, rfl, rfl | h, k⟩
    · exact .inl k
    · exact .inr ⟨first, second, rfl, h, k⟩
  · rintro (k | ⟨first, second, rfl, h, k⟩)
    · exact ⟨[], trees, rfl, .inl rfl, k⟩
    · exact ⟨first, second, rfl, .inr h, k⟩

end Forms

/-- The words of a derivation may be replaced by others of the same terminals. -/
theorem Derives.reword {a : Expansion} {trees : List Tree} (h : Derives a trees)
    {tokens : List Token} (same : tokens.map Token.terminal = (tokensOf trees).map Token.terminal) :
    ∃ others, Derives a others ∧ tokensOf others = tokens := by
  induction h generalizing tokens with
  | terminal t w =>
    simp only [tokensOf_cons, tokens_leaf, tokensOf_nil, List.append_nil, List.map_cons,
      List.map_nil, List.map_eq_singleton_iff] at same
    obtain ⟨token, rfl, rfl⟩ := same
    exact ⟨[.leaf token.terminal token.word], .terminal _ _, by simp⟩
  | rule _ ih =>
    obtain ⟨others, derives, rfl⟩ := @ih tokens (by simpa using same)
    exact ⟨[.node _ others], .rule derives, by simp⟩
  | both _ _ ih ihSecond =>
    rw [tokensOf_append, List.map_append, List.map_eq_append_iff] at same
    obtain ⟨left, right, rfl, sameLeft, sameRight⟩ := same
    obtain ⟨first, derivesFirst, rfl⟩ := ih sameLeft
    obtain ⟨second, derivesSecond, rfl⟩ := ihSecond sameRight
    exact ⟨first ++ second, .both derivesFirst derivesSecond, by simp⟩
  | first _ ih =>
    obtain ⟨others, derives, eq⟩ := ih same
    exact ⟨others, .first derives, eq⟩
  | second _ ih =>
    obtain ⟨others, derives, eq⟩ := ih same
    exact ⟨others, .second derives, eq⟩
  | absent a => exact ⟨[], .absent a, by simpa using same.symm⟩
  | present _ ih =>
    obtain ⟨others, derives, eq⟩ := ih same
    exact ⟨others, .present derives, eq⟩
  | stop a => exact ⟨[], .stop a, by simpa using same.symm⟩
  | again _ _ ih ihMore =>
    rw [tokensOf_append, List.map_append, List.map_eq_append_iff] at same
    obtain ⟨left, right, rfl, sameLeft, sameRight⟩ := same
    obtain ⟨first, derivesFirst, rfl⟩ := ih sameLeft
    obtain ⟨more, derivesMore, rfl⟩ := ihMore sameRight
    exact ⟨first ++ more, .again derivesFirst derivesMore, by simp⟩

end DiceNotation.Grammar
