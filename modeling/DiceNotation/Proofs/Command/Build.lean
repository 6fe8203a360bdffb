import DiceNotation.Command.OfPhrase

/-!
How building a command from its phrase can fail: with a fault, or with a numeral that is not read.
-/
namespace DiceNotation

open Grammar

variable {α β : Type}

def Fails (allowed : BuildError → Prop) (x : Except BuildError α) : Prop :=
  ∀ e, x = .error e → allowed e

def NeverStuck (x : Except BuildError α) : Prop := ∀ text place, x ≠ .error (.stuck text place)

def withoutSign : List Char → List Char
  | '-' :: digits => digits
  | '+' :: digits => digits
  | digits => digits

namespace Grammar

def OptionPhrase.numerals (o : OptionPhrase) : List (List Char) := o.number.toList.map Word.lexeme

def ClausePhrase.numerals : ClausePhrase → List (List Char)
  | target _ number => [number.lexeme]
  | targetList _ _ none _ => []
  | targetList _ _ (some (first, others)) _ => (first :: others.map Prod.snd).map Word.lexeme
  | doubleTarget _ number => [number.lexeme]
  | failure _ number => [number.lexeme]

def SidesPhrase.numerals : SidesPhrase → List (List Char)
  | number word => [word.lexeme]
  | fudge _ => []

def DicePhrase.numerals (d : DicePhrase) : List (List Char) :=
  d.head.options.flatMap OptionPhrase.numerals ++ d.clauses.flatMap ClausePhrase.numerals ++
    d.head.count.toList.map Word.lexeme ++ d.head.sides.numerals

def ExprPhrase.numerals : ExprPhrase → List (List Char)
  | dice term => term.numerals
  | float _ => []
  | integer word => [withoutSign word.lexeme]
  | group _ inner _ => inner.numerals
  | binary left _ right => left.numerals ++ right.numerals

def BodyPhrase.numerals : BodyPhrase → List (List Char)
  | expr phrase => phrase.numerals
  | repeated phrase => phrase.inner.numerals ++ [phrase.times.lexeme]

end Grammar

namespace Fails

variable {allowed : BuildError → Prop}

theorem ok (a : α) : Fails allowed (.ok a) := nofun

theorem error {e : BuildError} (h : allowed e) :
    Fails allowed (.error e : Except BuildError α) := by
  rintro _ ⟨⟩
  exact h

theorem bind {x : Except BuildError α} {f : α → Except BuildError β} (h : Fails allowed x)
    (k : ∀ a, Fails allowed (f a)) : Fails allowed (x >>= f) := by
  cases x with
  | ok a => exact k a
  | error e => exact error (h e rfl)

theorem map {x : Except BuildError α} (h : Fails allowed x) (f : α → β) :
    Fails allowed (x.map f) := by
  cases x with
  | ok a => exact ok _
  | error e => exact error (h e rfl)

theorem mapM {f : α → Except BuildError β} {xs : List α} (h : ∀ a ∈ xs, Fails allowed (f a)) :
    Fails allowed (xs.mapM f) := by
  induction xs with
  | nil => exact ok _
  | cons x xs ih =>
    rw [List.forall_mem_cons] at h
    rw [List.mapM_cons]
    exact h.1.bind fun y => (ih h.2).bind fun ys => ok _

theorem integer {s : List Char} (h : Fails allowed (readNumeral .integer (withoutSign s))) :
    Fails allowed (readInteger s) := by
  revert h
  fun_cases withoutSign s
  case case3 minus plus =>
    intro h
    simp only [readInteger]
    exact h.bind fun _ => ok _
  all_goals exact fun h => h.bind fun _ => ok _

section Build

variable (faults : ∀ f, allowed (.fault f)) {limits : Limits}
include faults

theorem assemble {count : Nat} {sides : Option Nat} {modifiers : List Modifier}
    {clauses : List Clause} {text : String} :
    Fails allowed (DiceTerm.assemble limits count sides modifiers clauses text) := by
  unfold DiceTerm.assemble
  split
  · exact error (faults _)
  · cases sides with
    | none => exact ok _
    | some sides =>
      dsimp only
      split
      · exact error (faults _)
      · split
        · exact error (faults _)
        · refine map ?_ _
          unfold Scoring.ofClauses
          split
          · exact error (faults _)
          · dsimp only
            split
            · exact error (faults _)
            · exact ok _

theorem clause {c : ClausePhrase}
    (numerals : ∀ rule, ∀ run ∈ c.numerals, Fails allowed (readNumeral rule run)) :
    Fails allowed c.build := by
  cases c with
  | targetList key opening entries closing =>
    cases entries with
    | none => exact error (faults _)
    | some entries =>
      refine (mapM fun w member => ?_).bind fun _ => ok _
      exact numerals .targetList w.lexeme (List.mem_map_of_mem member)
  | _ => exact (numerals _ _ (List.mem_singleton_self _)).bind fun _ => ok _

theorem dice {d : DicePhrase}
    (numerals : ∀ rule, ∀ run ∈ d.numerals, Fails allowed (readNumeral rule run)) :
    Fails allowed (d.build limits) := by
  simp only [DicePhrase.numerals, List.forall_mem_append, List.forall_mem_flatMap,
    forall_and] at numerals
  obtain ⟨⟨⟨modified, scored⟩, counted⟩, sided⟩ := numerals
  have option (o : OptionPhrase) (member : o ∈ d.head.options) : Fails allowed o.build := by
    unfold OptionPhrase.build
    split
    · exact ok _
    · rename_i w present
      refine (modified _ o member w.lexeme ?_).bind fun _ => ok _
      simp [OptionPhrase.numerals, present]
  refine (mapM option).bind fun modifiers => (mapM fun c member => ?_).bind fun clauses =>
    bind ?_ fun count => bind ?_ fun sides => assemble faults
  · exact clause faults fun rule => scored rule c member
  · cases count : d.head.count with
    | none => exact ok _
    | some w => exact counted _ w.lexeme (by simp [count])
  · cases sides : d.head.sides with
    | number w => exact (sided _ w.lexeme (by simp [sides, SidesPhrase.numerals])).map _
    | fudge w => exact ok _

theorem expr {e : ExprPhrase}
    (numerals : ∀ rule, ∀ run ∈ e.numerals, Fails allowed (readNumeral rule run)) :
    Fails allowed (e.build limits) := by
  induction e with
  | dice term => exact (dice faults numerals).bind fun _ => ok _
  | float word => exact ok _
  | integer word =>
    exact bind (integer (numerals .integer _ (List.mem_singleton_self _))) fun _ => ok _
  | group opening inner closing ih => exact (ih numerals).bind fun _ => ok _
  | binary left operator right ih ihRight =>
    simp only [ExprPhrase.numerals, List.forall_mem_append, forall_and] at numerals
    exact (ih numerals.1).bind fun _ => (ihRight numerals.2).bind fun _ => ok _

theorem command {c : CommandPhrase}
    (numerals : ∀ rule, ∀ run ∈ c.body.numerals, Fails allowed (readNumeral rule run)) :
    Fails allowed (c.build limits) := by
  refine bind ?_ fun _ => ok _
  cases body : c.body with
  | expr phrase =>
    rw [body] at numerals
    exact (expr faults numerals).bind fun _ => ok _
  | repeated phrase =>
    simp only [body, BodyPhrase.numerals, List.forall_mem_append, forall_and] at numerals
    refine bind ?_ fun _ => ok _
    refine (expr faults numerals.1).bind fun inner => bind ?_ fun times => ?_
    · exact numerals.2 _ _ (List.mem_singleton_self _)
    · unfold Repetition.assemble
      split
      · exact error (faults _)
      · split
        · exact error (faults _)
        · exact ok _

end Build

end Fails

theorem NeverStuck.command (limits : Limits) (c : CommandPhrase) : NeverStuck (c.build limits) := by
  have never : Fails (fun e => ∀ text place, e ≠ .stuck text place) (c.build limits) := by
    refine Fails.command (fun f => nofun) fun rule run _ => ?_
    unfold readNumeral
    split
    · exact Fails.error nofun
    · exact Fails.ok _
  exact fun text place stuck => never _ stuck text place rfl

end DiceNotation
