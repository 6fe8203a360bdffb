import DiceNotation.Command.OfPhrase
import DiceNotation.Proofs.Grammar.Acceptance
import DiceNotation.Proofs.Grammar.Viable
import Mathlib

/-!
What is said about a text that is no command: the place that its readings reach and none gets
past, and the terminals that could have come there.
-/
namespace DiceNotation.Grammar

open DiceNotation.Text

structure Terminal.Longest (t : Terminal) (s lexeme rest : List Char) : Prop where
  split : s = lexeme ++ rest
  fits : t.Matches lexeme
  longest : ∀ l r, s = l ++ r → t.Matches l → l.length ≤ lexeme.length

namespace Terminal

theorem take?_eq_some_iff {t : Terminal} {s lexeme rest : List Char} :
    t.take? s = some (lexeme, rest) ↔ t.Longest s lexeme rest := by
  constructor
  · intro took
    refine ⟨(take?_append took).2.symm, matches_of_take? took, ?_⟩
    rintro l r rfl other
    obtain ⟨taken, left, took', long⟩ := t.takesLongest.longest r other
    rw [took] at took'
    cases took'
    exact long
  · rintro ⟨rfl, fits, longest⟩
    obtain ⟨taken, left, took, long⟩ := t.takesLongest.longest rest fits
    have whole := (take?_append took).2
    have same := longest taken left whole.symm (matches_of_take? took)
    obtain ⟨rfl, rfl⟩ := List.append_inj whole (by omega)
    exact took

theorem take?_isSome {t : Terminal} {s lexeme rest : List Char} (split : s = lexeme ++ rest)
    (fits : t.Matches lexeme) : ∃ l r, t.take? s = some (l, r) := by
  subst split
  obtain ⟨taken, left, took, _⟩ := t.takesLongest.longest rest fits
  exact ⟨taken, left, took⟩

end Terminal

/-- The front of a text, of so many characters, is read as words: each takes the longest lexeme of
its terminal, and the blanks before the words and behind the last are skipped. -/
inductive Reads : List Char → List Token → Nat → Prop where
  | stop (s : List Char) : Reads s [] (s.takeWhile isBlank).length
  | word {s lexeme rest : List Char} {t : Terminal} {tokens : List Token} {n : Nat}
      (taken : t.Longest (s.dropWhile isBlank) lexeme rest) (behind : Reads rest tokens n) :
      Reads s (⟨t, ⟨s.takeWhile isBlank, lexeme⟩⟩ :: tokens)
        ((s.takeWhile isBlank).length + lexeme.length + n)

namespace Reads

variable {s : List Char} {tokens : List Token} {n : Nat}

theorem gap_rest (s : List Char) : s.takeWhile isBlank ++ s.dropWhile isBlank = s :=
  List.takeWhile_append_dropWhile

theorem drop_gap (s : List Char) (n : Nat) :
    s.drop ((s.takeWhile isBlank).length + n) = (s.dropWhile isBlank).drop n := by
  have split (gap rest : List Char) : (gap ++ rest).drop (gap.length + n) = rest.drop n :=
    List.drop_length_add_append n
  rw [← split, gap_rest]

theorem isBlank_head (s : List Char) : ∀ x ∈ (s.dropWhile isBlank).head?, isBlank x = false := by
  intro x member
  have dark := List.head?_dropWhile_not isBlank s
  rw [Option.mem_def.mp member] at dark
  exact dark

theorem fits (h : Reads s tokens n) : ∀ t ∈ tokens, t.Fits := by
  induction h with
  | stop s => exact nofun
  | word taken _ ih =>
    refine List.forall_mem_cons.mpr ⟨⟨?_, taken.fits⟩, ih⟩
    exact fun x => List.mem_takeWhile_imp

theorem parts (h : Reads s tokens n) : ∃ blanks rest, s = (spellTokens tokens ++ blanks) ++ rest ∧
    (spellTokens tokens ++ blanks).length = n ∧ (∀ x ∈ blanks, isBlank x = true) ∧
    ∀ x ∈ rest.head?, isBlank x = false := by
  induction h with
  | stop s =>
    refine ⟨s.takeWhile isBlank, s.dropWhile isBlank, (gap_rest s).symm, rfl, ?_, isBlank_head s⟩
    exact fun x => List.mem_takeWhile_imp
  | @word s lexeme left t tokens n taken behind ih =>
    obtain ⟨blanks, rest, whole, length, blank, dark⟩ := ih
    refine ⟨blanks, rest, ?_, ?_, blank, dark⟩
    · conv_lhs => rw [← gap_rest s, taken.split, whole]
      simp [spellTokens, Token.spell, Word.spell]
    · rw [← length]
      simp [spellTokens, Token.spell, Word.spell]
      omega

theorem le_length (h : Reads s tokens n) : n ≤ s.length := by
  obtain ⟨blanks, rest, whole, length, _⟩ := h.parts
  have total := congrArg List.length whole
  rw [List.length_append, length] at total
  omega

theorem not_blank (h : Reads s tokens n) : ∀ x ∈ s[n]?, isBlank x = false := by
  obtain ⟨blanks, rest, whole, length, _, dark⟩ := h.parts
  have behind : s[n]? = rest.head? := by
    rw [← List.head?_drop, whole, ← length, List.drop_left]
  rw [behind]
  exact dark

theorem extend (h : Reads s tokens n) {t : Terminal} {lexeme rest : List Char}
    (split : s.drop n = lexeme ++ rest) (fits : t.Matches lexeme) :
    ∃ w m, n < m ∧ Reads s (tokens ++ [⟨t, w⟩]) m := by
  induction h with
  | stop s =>
    have behind : s.drop (s.takeWhile isBlank).length = s.dropWhile isBlank := drop_gap s 0
    rw [behind] at split
    obtain ⟨l, r, took⟩ := Terminal.take?_isSome split fits
    have nonempty := List.length_pos_iff.mpr (Terminal.take?_append took).1
    refine ⟨_, _, ?_, word (Terminal.take?_eq_some_iff.mp took) (stop r)⟩
    omega
  | @word s l left u tokens n taken behind ih =>
    rw [Nat.add_assoc, drop_gap, taken.split, List.drop_length_add_append] at split
    obtain ⟨w, m, further, longer⟩ := ih split
    exact ⟨w, _, Nat.add_lt_add_left further _, word taken longer⟩

end Reads

def Reaches (c : Cursor) (s : List Char) (last : Cursor) (n : Nat) : Prop :=
  ∃ tokens, Reads s tokens n ∧ c.run tokens = some last

namespace Reaches

variable {c last : Cursor} {s : List Char} {n : Nat}

theorem iff_ways : Reaches c s last n ↔
    (last = c ∧ n = (s.takeWhile isBlank).length) ∨
      ∃ way ∈ ways c (s.takeWhile isBlank) (s.dropWhile isBlank), ∃ m,
        Reaches way.next way.left last m ∧
          n = (s.takeWhile isBlank).length + way.lexeme.length + m := by
  constructor
  · rintro ⟨tokens, reads, ran⟩
    cases reads with
    | stop => exact .inl ⟨(Option.some.inj ran).symm, rfl⟩
    | @word _ lexeme rest t tokens m taken behind =>
      obtain ⟨next, stepped, ran⟩ := Option.bind_eq_some_iff.mp ran
      have took := Terminal.take?_eq_some_iff.mpr taken
      exact .inr ⟨⟨next, lexeme, rest⟩, mem_ways took stepped, m, ⟨tokens, behind, ran⟩, rfl⟩
  · rintro (⟨rfl, rfl⟩ | ⟨way, member, m, ⟨tokens, behind, ran⟩, rfl⟩)
    · exact ⟨[], .stop s, rfl⟩
    · obtain ⟨t, _, found⟩ := List.mem_filterMap.mp member
      obtain ⟨took, stepped⟩ := wayOf?_eq_some found
      have taken := Terminal.take?_eq_some_iff.mp took
      exact ⟨_, .word taken behind, Option.bind_eq_some_iff.mpr ⟨way.next, stepped, ran⟩⟩

theorem further {t : Terminal} {lexeme rest : List Char} (h : Reaches c s last n)
    (expected : t ∈ last.expected) (split : s.drop n = lexeme ++ rest)
    (fits : t.Matches lexeme) : ∃ next m, n < m ∧ Reaches c s next m := by
  obtain ⟨tokens, reads, ran⟩ := h
  obtain ⟨w, m, beyond, longer⟩ := reads.extend split fits
  obtain ⟨next, stepped⟩ := Option.isSome_iff_exists.mp ((Cursor.mem_expected w).mp expected)
  refine ⟨next, m, beyond, _, longer, ?_⟩
  rw [Cursor.run_append, ran]
  simp [Cursor.run, stepped]

end Reaches

structure Furthest (P : Stuck → Prop) (place : Stuck) : Prop where
  reached : ∃ a, P a ∧ a.position = place.position
  bound : ∀ a, P a → a.position ≤ place.position
  expected : ∀ t, t ∈ place.expected ↔ ∃ a, P a ∧ a.position = place.position ∧ t ∈ a.expected

namespace Furthest

theorem single (place : Stuck) : Furthest (· = place) place where
  reached := ⟨place, rfl, rfl⟩
  bound := by
    rintro a rfl
    exact Nat.le_refl _
  expected := by simp

variable {P Q : Stuck → Prop} {a b : Stuck}

theorem of_lt (ha : Furthest P a) (hb : Furthest Q b) (beyond : a.position < b.position) :
    Furthest (fun x => P x ∨ Q x) b where
  reached := by
    obtain ⟨x, holds, same⟩ := hb.reached
    exact ⟨x, .inr holds, same⟩
  bound := by
    rintro x (first | second)
    · exact Nat.le_trans (ha.bound x first) (Nat.le_of_lt beyond)
    · exact hb.bound x second
  expected := by
    intro t
    rw [hb.expected]
    constructor
    · rintro ⟨x, holds, same, member⟩
      exact ⟨x, .inr holds, same, member⟩
    · rintro ⟨x, first | second, same, member⟩
      · have := ha.bound x first
        omega
      · exact ⟨x, second, same, member⟩

theorem swap (h : Furthest (fun x => P x ∨ Q x) a) : Furthest (fun x => Q x ∨ P x) a := by
  have same : (fun x => P x ∨ Q x) = fun x => Q x ∨ P x := funext fun x => propext or_comm
  rwa [same] at h

theorem further (ha : Furthest P a) (hb : Furthest Q b) :
    Furthest (fun x => P x ∨ Q x) (a.further b) := by
  unfold Stuck.further
  split
  · exact ha.of_lt hb ‹_›
  · split
    · exact (hb.of_lt ha ‹_›).swap
    · have level : a.position = b.position := by omega
      refine ⟨?_, ?_, ?_⟩
      · obtain ⟨x, holds, same⟩ := ha.reached
        exact ⟨x, .inl holds, same⟩
      · rintro x (first | second)
        · exact ha.bound x first
        · exact level ▸ hb.bound x second
      · intro t
        rw [List.mem_append, ha.expected, hb.expected, ← level]
        constructor
        · rintro (⟨x, holds, rest⟩ | ⟨x, holds, rest⟩)
          · exact ⟨x, .inl holds, rest⟩
          · exact ⟨x, .inr holds, rest⟩
        · rintro ⟨x, first | second, rest⟩
          · exact .inl ⟨x, first, rest⟩
          · exact .inr ⟨x, second, rest⟩

theorem foldl {α : Type} {read : α → Except Stuck CommandPhrase} {ways : List α}
    {first place : Stuck} {Q : α → Stuck → Prop} (start : Furthest P first)
    (each : ∀ way ∈ ways, ∀ a, read way = .error a → Furthest (Q way) a)
    (h : (ways.map read).foldl furthest (.error first) = .error place) :
    Furthest (fun x => P x ∨ ∃ way ∈ ways, Q way x) place := by
  induction ways generalizing first P with
  | nil =>
    cases h
    simpa using start
  | cons way ways ih =>
    rw [List.forall_mem_cons] at each
    rw [List.map_cons, List.foldl_cons] at h
    cases result : read way with
    | ok command =>
      obtain ⟨c, finished⟩ := @foldl_furthest_ok (ways.map read) (.ok command) (.inl ⟨command, rfl⟩)
      rw [result, furthest, finished] at h
      cases h
    | error a =>
      rw [result, furthest] at h
      have rest := ih (start.further (each.1 a result)) each.2 h
      simpa [or_assoc] using rest

end Furthest

def ReachesPlace (c : Cursor) (position : Nat) (s : List Char) (place : Stuck) : Prop :=
  ∃ last n, Reaches c s last n ∧ place = ⟨position + n, last.expected⟩

theorem reachesPlace_iff {c : Cursor} {position : Nat} {s : List Char} {place : Stuck} :
    ReachesPlace c position s place ↔
      place = ⟨position + (s.takeWhile isBlank).length, c.expected⟩ ∨
        ∃ way ∈ ways c (s.takeWhile isBlank) (s.dropWhile isBlank),
          ReachesPlace way.next (position + (s.takeWhile isBlank).length + way.lexeme.length)
            way.left place := by
  constructor
  · rintro ⟨last, n, reaches, rfl⟩
    rcases Reaches.iff_ways.mp reaches with ⟨rfl, rfl⟩ | ⟨way, member, m, behind, rfl⟩
    · exact .inl rfl
    · exact .inr ⟨way, member, last, m, behind, by simp [Nat.add_assoc]⟩
  · rintro (rfl | ⟨way, member, last, m, behind, rfl⟩)
    · exact ⟨c, _, Reaches.iff_ways.mpr (.inl ⟨rfl, rfl⟩), rfl⟩
    · have reaches := Reaches.iff_ways.mpr (.inr ⟨way, member, m, behind, rfl⟩)
      exact ⟨last, _, reaches, by simp [Nat.add_assoc]⟩

theorem readFrom_furthest {c : Cursor} {position : Nat} {s : List Char} {place : Stuck}
    (h : readFrom c position s = .error place) :
    Furthest (ReachesPlace c position s) place := by
  induction hn : s.length using Nat.strongRecOn generalizing c position s place with
  | ind n ih =>
    have all : ReachesPlace c position s = _ := funext fun x => propext reachesPlace_iff
    rw [readFrom_eq] at h
    split at h
    · cases h
    · rw [all]
      refine Furthest.foldl (Furthest.single _) ?_ h
      intro way member a stuck
      have shorter := Nat.lt_of_lt_of_le (length_left_lt member) (length_dropWhile_le isBlank s)
      exact ih way.left.length (hn ▸ shorter) stuck rfl

theorem Reads.read_of_reasoned {c : Cursor} {s : List Char} {tokens : List Token} {n : Nat}
    {command : CommandPhrase} (h : Reads s tokens n) (ran : c.run tokens = some (.reasoned command))
    (unfinished : ∀ p, c ≠ .reasoned p) (position : Nat) :
    ∃ command, readFrom c position s = .ok command := by
  induction h generalizing c position with
  | stop s => exact absurd (Option.some.inj ran) (unfinished command)
  | @word s lexeme rest t tokens n taken behind ih =>
    obtain ⟨next, stepped, ran⟩ := Option.bind_eq_some_iff.mp ran
    have took := Terminal.take?_eq_some_iff.mpr taken
    refine readFrom_of_way rfl rfl took stepped ?_ position
    intro position
    by_cases reason : t = .reason
    · subst reason
      obtain ⟨body, rfl, _⟩ := Cursor.step_reason stepped
      obtain rfl : rest = [] := by
        simp only [Terminal.take?, Terminal.literal?] at took
        split at took
        · cases took
          rfl
        · cases took
      exact ⟨_, readFrom_of_blank (by simp) rfl position⟩
    · apply ih ran
      rintro p rfl
      exact reason (Cursor.reasoned_of_step stepped)

theorem Cursor.reasoned_of_expected {c : Cursor} (h : c.expected = []) :
    ∃ command, c = reasoned command := by
  have none (t : Terminal) (stepped : (c.step t ⟨[], []⟩).isSome = true) : False := by
    have member := (mem_expected ⟨[], []⟩).mpr stepped
    rw [h] at member
    cases member
  cases c with
  | reasoned command => exact ⟨command, rfl⟩
  | operand => exact (none .integer rfl).elim
  | counted => exact (none .marker rfl).elim
  | term | value => exact (none .operator rfl).elim
  | listed => exact (none .comma rfl).elim
  | repeated => exact (none .reason rfl).elim
  | _ => exact (none .number rfl).elim

theorem eraseDups_sublist {α : Type} [BEq α] [LawfulBEq α] (xs : List α) :
    xs.eraseDups.Sublist xs := by
  induction hn : xs.length using Nat.strongRecOn generalizing xs with
  | ind n ih =>
    cases xs with
    | nil => simp
    | cons x xs =>
      rw [List.eraseDups_cons]
      have shorter := List.length_filter_le (fun b => !b == x) xs
      rw [List.length_cons] at hn
      refine List.Sublist.cons_cons x ?_
      exact (ih _ (by omega) _ rfl).trans List.filter_sublist

theorem nodup_eraseDups {α : Type} [BEq α] [LawfulBEq α] (xs : List α) : xs.eraseDups.Nodup := by
  induction hn : xs.length using Nat.strongRecOn generalizing xs with
  | ind n ih =>
    cases xs with
    | nil => simp
    | cons x xs =>
      rw [List.eraseDups_cons, List.nodup_cons]
      have shorter := List.length_filter_le (fun b => !b == x) xs
      rw [List.length_cons] at hn
      exact ⟨by simp [List.mem_eraseDups], ih _ (by omega) _ rfl⟩

namespace Stuck

theorem mem_descriptions {place : Stuck} {d : String} :
    d ∈ place.descriptions ↔ ∃ t ∈ place.expected, t.description = d := by
  rw [descriptions, List.mem_eraseDups, List.mem_mergeSort, List.mem_map]

theorem descriptions_increasing (place : Stuck) : place.descriptions.Pairwise (· < ·) := by
  have sorted : ((place.expected.map Terminal.description).mergeSort fun a b => !(b < a)).Pairwise
      fun a b => (!decide (b < a)) = true := by
    apply List.pairwise_mergeSort
    · intro a b c first second
      simp only [Bool.not_eq_true', decide_eq_false_iff_not, String.not_lt] at first second ⊢
      exact String.le_trans first second
    · intro a b
      rw [Bool.or_eq_true, Bool.not_eq_true', Bool.not_eq_true', decide_eq_false_iff_not,
        decide_eq_false_iff_not, String.not_lt, String.not_lt]
      exact String.le_total a b
  have distinct := nodup_eraseDups
    ((place.expected.map Terminal.description).mergeSort fun a b => !(b < a))
  refine ((sorted.sublist (eraseDups_sublist _)).and distinct).imp ?_
  rintro a b ⟨least, different⟩
  simp only [Bool.not_eq_true', decide_eq_false_iff_not, String.not_lt] at least
  by_contra above
  exact different (String.le_antisymm least (String.not_lt.mp above))

end Stuck

/-- A place tells exactly why a text is no command. -/
structure Stuck.Exact (text : List Char) (place : Stuck) : Prop where
  inside : place.position ≤ text.length
  not_blank : ∀ x ∈ text[place.position]?, isBlank x = false
  reached : ∃ tokens, Reads text tokens place.position ∧ Viable (tokens.map Token.terminal)
  furthest : ∀ tokens n, Reads text tokens n → Viable (tokens.map Token.terminal) →
    n ≤ place.position
  nonempty : place.descriptions ≠ []
  increasing : place.descriptions.Pairwise (· < ·)
  described : ∀ d, d ∈ place.descriptions ↔ ∃ tokens t, Reads text tokens place.position ∧
    Viable (tokens.map Token.terminal ++ [t]) ∧ d = t.description
  absent : ∀ tokens t, Reads text tokens place.position →
    Viable (tokens.map Token.terminal ++ [t]) →
      ∀ lexeme rest, text.drop place.position = lexeme ++ rest → ¬ t.Matches lexeme

section Exact

variable {text : List Char} {place : Stuck}

theorem reaches_of_viable {tokens : List Token} {n : Nat} (reads : Reads text tokens n)
    (viable : Viable (tokens.map Token.terminal)) :
    ∃ last, Cursor.start.run tokens = some last ∧ Reaches .start text last n := by
  have ran := (Cursor.viable_iff_run reads.fits).mp viable
  obtain ⟨last, ran⟩ := Option.isSome_iff_exists.mp ran
  exact ⟨last, ran, tokens, reads, ran⟩

theorem viable_more_iff {t : Terminal} {n : Nat} :
    (∃ tokens, Reads text tokens n ∧ Viable (tokens.map Token.terminal ++ [t])) ↔
      ∃ last, Reaches .start text last n ∧ t ∈ last.expected := by
  constructor
  · rintro ⟨tokens, reads, viable⟩
    have shorter : Viable (tokens.map Token.terminal) := by
      obtain ⟨more, derivable⟩ := viable
      exact ⟨t :: more, by simpa using derivable⟩
    obtain ⟨last, ran, reaches⟩ := reaches_of_viable reads shorter
    exact ⟨last, reaches, (Cursor.mem_expected_iff_viable reads.fits ran t).mpr viable⟩
  · rintro ⟨last, ⟨tokens, reads, ran⟩, expected⟩
    exact ⟨tokens, reads, (Cursor.mem_expected_iff_viable reads.fits ran t).mp expected⟩

theorem mem_expected_iff (far : Furthest (ReachesPlace .start 0 text) place) {t : Terminal} :
    t ∈ place.expected ↔ ∃ last, Reaches .start text last place.position ∧ t ∈ last.expected := by
  rw [far.expected]
  constructor
  · rintro ⟨_, ⟨last, n, reaches, rfl⟩, same, member⟩
    obtain rfl : n = place.position := by simpa using same
    exact ⟨last, reaches, member⟩
  · rintro ⟨last, reaches, member⟩
    exact ⟨_, ⟨last, _, reaches, rfl⟩, by simp, member⟩

end Exact
end DiceNotation.Grammar

namespace DiceNotation

open Grammar Text

/-- A text that cannot be read is diagnosed exactly. -/
theorem stuck_exact {text : String} {place : Stuck} (h : read text.toList = .error place) :
    place.Exact text.toList := by
  have far := readFrom_furthest h
  have further {last : Cursor} {n : Nat} (reaches : Reaches .start text.toList last n) :
      n ≤ place.position := by
    simpa using far.bound _ ⟨last, n, reaches, rfl⟩
  obtain ⟨_, ⟨last, n, ⟨tokens, reads, ran⟩, rfl⟩, same⟩ := far.reached
  obtain rfl : n = place.position := by simpa using same
  refine ⟨reads.le_length, reads.not_blank, ⟨tokens, reads, ?_⟩, ?_, ?_,
    place.descriptions_increasing, ?_, ?_⟩
  · rw [Cursor.viable_iff_run reads.fits, ran]
    rfl
  · intro others n reads viable
    obtain ⟨last, _, reaches⟩ := reaches_of_viable reads viable
    exact further reaches
  · intro empty
    have none : last.expected = [] := by
      rw [List.eq_nil_iff_forall_not_mem]
      intro t member
      have expected := (mem_expected_iff far).mpr ⟨last, ⟨tokens, reads, ran⟩, member⟩
      have described := Stuck.mem_descriptions.mpr ⟨t, expected, rfl⟩
      rw [empty] at described
      cases described
    obtain ⟨command, rfl⟩ := Cursor.reasoned_of_expected none
    obtain ⟨command, finished⟩ := reads.read_of_reasoned ran nofun 0
    rw [Grammar.read, finished] at h
    cases h
  · intro d
    rw [Stuck.mem_descriptions]
    constructor
    · rintro ⟨t, expected, rfl⟩
      obtain ⟨tokens, reads, viable⟩ := viable_more_iff.mpr ((mem_expected_iff far).mp expected)
      exact ⟨tokens, t, reads, viable, rfl⟩
    · rintro ⟨tokens, t, reads, viable, rfl⟩
      exact ⟨t, (mem_expected_iff far).mpr (viable_more_iff.mp ⟨tokens, reads, viable⟩), rfl⟩
  · intro tokens t reads viable lexeme rest split fits
    obtain ⟨last, reaches, expected⟩ := viable_more_iff.mp ⟨tokens, reads, viable⟩
    obtain ⟨next, m, beyond, longer⟩ := reaches.further expected split fits
    have := further longer
    omega

/-- A number of dice and an integer both end here, each with its own continuation. -/
theorem open_parenthesis_diagnosed :
    read "(10".toList = .error ⟨3, [.marker, .operator, .closeParen]⟩ ∧
      Stuck.Exact "(10".toList ⟨3, [.marker, .operator, .closeParen]⟩ := by
  have stuck : read "(10".toList = .error ⟨3, [.marker, .operator, .closeParen]⟩ := by cbv
  exact ⟨stuck, stuck_exact stuck⟩

end DiceNotation
