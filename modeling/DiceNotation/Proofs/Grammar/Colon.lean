import DiceNotation.Proofs.Grammar.Spelled
import DiceNotation.Proofs.Grammar.Diagnostics

/-!
A colon ends the part of a text that is read as a command. Whatever follows it is the reason, and
a text that cannot be read up to the colon gets stuck where it gets stuck without it.
-/
namespace DiceNotation.Grammar

open DiceNotation.Text

variable {letters : List Char}

theorem Terminal.no_colon {t : Terminal} (h : t ≠ .reason) {l : List Char} (fits : t.Matches l) :
    ':' ∉ l := by
  intro member
  exact colon_not_mem_letters (mem_letters h fits _ member)

theorem append_before_colon {s l x : List Char} (colon : ':' ∉ l)
    (split : s ++ ':' :: letters = l ++ x) : ∃ m, s = l ++ m ∧ x = m ++ ':' :: letters := by
  rcases List.append_eq_append_iff.mp split with ⟨more, rfl, behind⟩ | ⟨more, rfl, rfl⟩
  · cases more with
    | nil => exact ⟨[], by simp, by simpa using behind.symm⟩
    | cons y more =>
      obtain ⟨rfl, _⟩ := List.cons.inj behind
      exact absurd (List.mem_append_right s List.mem_cons_self) colon
  · exact ⟨more, rfl, rfl⟩

theorem Terminal.take?_reason_of_ne {x : Char} (h : x ≠ ':') (s : List Char) :
    take? .reason (x :: s) = none := by
  simp only [take?, literal?]
  split
  · rename_i eq
    exact absurd (List.cons.inj eq).1 h
  · rfl

theorem Terminal.take?_before_colon (t : Terminal) {s : List Char} (nonempty : s ≠ [])
    (colon : ':' ∉ s) : t.take? (s ++ ':' :: letters) =
      (t.take? s).map fun (lexeme, rest) => (lexeme, rest ++ ':' :: letters) := by
  by_cases reason : t = .reason
  · subst reason
    obtain ⟨x, s, rfl⟩ := List.exists_cons_of_ne_nil nonempty
    have other : x ≠ ':' := by
      rintro rfl
      exact colon List.mem_cons_self
    rw [List.cons_append, take?_reason_of_ne other, take?_reason_of_ne other]
    rfl
  · cases took : t.take? s with
    | some pair =>
      obtain ⟨lexeme, rest⟩ := pair
      obtain ⟨rfl, fits, longest⟩ := take?_eq_some_iff.mp took
      refine take?_eq_some_iff.mpr ⟨List.append_assoc .., fits, ?_⟩
      intro l r split other
      obtain ⟨m, eq, _⟩ := append_before_colon (no_colon reason other) split
      exact longest l m eq other
    | none =>
      rw [Option.map_none, Option.eq_none_iff_forall_ne_some]
      rintro ⟨lexeme, rest⟩ found
      obtain ⟨split, fits, _⟩ := take?_eq_some_iff.mp found
      obtain ⟨m, eq, _⟩ := append_before_colon (no_colon reason fits) split
      obtain ⟨l, r, some⟩ := take?_isSome eq fits
      rw [took] at some
      cases some

theorem Terminal.take?_colon {t : Terminal} (h : t ≠ .reason) :
    t.take? (':' :: letters) = none := by
  rw [Option.eq_none_iff_forall_ne_some]
  rintro ⟨lexeme, rest⟩ found
  obtain ⟨nonempty, whole⟩ := take?_append found
  obtain ⟨x, more, rfl⟩ := List.exists_cons_of_ne_nil nonempty
  obtain ⟨rfl, _⟩ := List.cons.inj whole
  exact no_colon h (matches_of_take? found) List.mem_cons_self

theorem ways_before_colon (c : Cursor) (gap : List Char) {s : List Char} (nonempty : s ≠ [])
    (colon : ':' ∉ s) : ways c gap (s ++ ':' :: letters) =
      (ways c gap s).map fun way => { way with left := way.left ++ ':' :: letters } := by
  rw [ways, ways, List.map_filterMap]
  congr 1
  funext t
  rw [wayOf?, wayOf?, t.take?_before_colon nonempty colon]
  cases t.take? s with
  | none => rfl
  | some pair =>
    obtain ⟨lexeme, rest⟩ := pair
    cases stepped : c.step t ⟨gap, lexeme⟩ with
    | none => simp [stepped]
    | some next => simp [stepped]

theorem ways_colon (c : Cursor) (gap : List Char) : ways c gap (':' :: letters) =
    (c.step .reason ⟨gap, ':' :: letters⟩).toList.map fun next => ⟨next, ':' :: letters, []⟩ := by
  have only : wayOf? c gap (':' :: letters) = fun t => if t = .reason then
      (c.step .reason ⟨gap, ':' :: letters⟩).map fun next => ⟨next, ':' :: letters, []⟩
      else none := by
    funext t
    split
    · rename_i reason
      subst reason
      cases stepped : c.step .reason ⟨gap, ':' :: letters⟩ <;>
        simp [wayOf?, Terminal.take?, Terminal.literal?, stepped]
    · rename_i other
      rw [wayOf?, Terminal.take?_colon other]
      rfl
  rw [ways, only]
  cases c.step .reason ⟨gap, ':' :: letters⟩ <;> simp [Terminal.all]

theorem Cursor.step_reason_eq_finish {c : Cursor} (unfinished : ∀ p, c ≠ reasoned p) (w : Word) :
    c.step .reason w = c.finish?.map fun command => reasoned { command with reason := some w } := by
  have operand (k : Context) (e : ExprPhrase) : afterOperand k e .reason w =
      (finishOperand k e).map fun command => reasoned { command with reason := some w } := by
    obtain ⟨frames, pending⟩ := k
    cases frames <;> rfl
  cases c with
  | term k d => exact operand k (.dice d)
  | explosion k h kind key => exact operand k _
  | value k e => exact operand k e
  | reasoned command => exact absurd rfl (unfinished command)
  | _ => rfl

/-- The same command with a reason, or stuck at the same place. -/
inductive WithReason (letters : List Char) :
    Except Stuck CommandPhrase → Except Stuck CommandPhrase → Prop where
  | read (command : CommandPhrase) (gap : List Char) :
      WithReason letters (.ok command) (.ok { command with reason := some ⟨gap, ':' :: letters⟩ })
  | stuck (place : Stuck) : WithReason letters (.error place) (.error place)

theorem WithReason.furthest {a b a' b' : Except Stuck CommandPhrase} (h : WithReason letters a a')
    (k : WithReason letters b b') :
    WithReason letters (Grammar.furthest a b) (Grammar.furthest a' b') := by
  cases h with
  | read command gap => exact .read command gap
  | stuck place =>
    cases k with
    | read command gap => exact .read command gap
    | stuck other => exact .stuck _

theorem WithReason.foldl {α : Type} {readings : List α}
    {plain whole : α → Except Stuck CommandPhrase}
    (each : ∀ a ∈ readings, WithReason letters (plain a) (whole a))
    {best best' : Except Stuck CommandPhrase} (h : WithReason letters best best') :
    WithReason letters ((readings.map plain).foldl Grammar.furthest best)
      ((readings.map whole).foldl Grammar.furthest best') := by
  induction readings generalizing best best' with
  | nil => exact h
  | cons a readings ih =>
    rw [List.forall_mem_cons] at each
    exact ih each.2 (h.furthest each.1)

theorem readFrom_colon {c : Cursor} (unfinished : ∀ p, c ≠ .reasoned p) {s : List Char}
    (colon : ':' ∉ s) (position : Nat) :
    WithReason letters (readFrom c position s) (readFrom c position (s ++ ':' :: letters)) := by
  -- On the length, since each word takes a character at least.
  induction hn : s.length using Nat.strongRecOn generalizing c position s with
  | ind n ih =>
    have dark : isBlank ':' = false := rfl
    rw [readFrom_eq, readFrom_eq c position (s ++ _)]
    cases rest : s.dropWhile isBlank with
    | nil =>
      have gap : s.takeWhile isBlank = s := by
        have whole := List.takeWhile_append_dropWhile (p := isBlank) (l := s)
        rwa [rest, List.append_nil] at whole
      have front : (s ++ ':' :: letters).takeWhile isBlank = s := by
        rw [List.takeWhile_append, gap]
        simp [dark]
      have behind : (s ++ ':' :: letters).dropWhile isBlank = ':' :: letters := by
        rw [List.dropWhile_append, rest]
        simp [dark]
      rw [front, behind, gap, ways_colon, Cursor.step_reason_eq_finish unfinished]
      cases c.finish? with
      | none => exact .stuck _
      | some command =>
        simp only [Option.map_some, Option.toList_some, List.map_cons, List.map_nil,
          List.foldl_cons, List.foldl_nil]
        rw [readFrom_of_blank (by simp) (c := .reasoned _) rfl]
        exact .read command s
    | cons x more =>
      have front : (s ++ ':' :: letters).takeWhile isBlank = s.takeWhile isBlank := by
        rw [List.takeWhile_append, if_neg]
        intro whole
        have parts := congrArg List.length
          (List.takeWhile_append_dropWhile (p := isBlank) (l := s))
        rw [List.length_append, rest, List.length_cons] at parts
        omega
      have behind : (s ++ ':' :: letters).dropWhile isBlank = x :: more ++ ':' :: letters := by
        rw [List.dropWhile_append, rest]
        rfl
      have plain : ':' ∉ x :: more := by
        rw [← rest]
        exact fun member => colon ((List.dropWhile_sublist isBlank).mem member)
      rw [front, behind, ways_before_colon c _ (List.cons_ne_nil x more) plain]
      simp only [List.cons_append, List.map_map]
      refine WithReason.foldl ?_ (.stuck _)
      intro way member
      obtain ⟨t, _, found⟩ := List.mem_filterMap.mp member
      obtain ⟨took, stepped⟩ := wayOf?_eq_some found
      have cut : way.lexeme ++ way.left = x :: more := (Terminal.take?_append took).2
      have shorter := length_left_lt member
      have within := length_dropWhile_le isBlank s
      rw [rest] at within
      refine ih _ (by omega) ?_ ?_ _ rfl
      · rintro p same
        rw [same] at stepped
        obtain rfl := Cursor.reasoned_of_step stepped
        rw [Terminal.take?_reason_of_ne] at took
        · cases took
        · rintro rfl
          exact plain List.mem_cons_self
      · rw [← cut] at plain
        exact fun inside => plain (List.mem_append_right _ inside)

theorem read_colon {s : List Char} (colon : ':' ∉ s) :
    WithReason letters (read s) (read (s ++ ':' :: letters)) :=
  readFrom_colon (fun _ unfinished => Cursor.noConfusion unfinished) colon 0

end DiceNotation.Grammar
