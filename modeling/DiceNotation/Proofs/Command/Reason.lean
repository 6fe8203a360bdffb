import DiceNotation.Proofs.Command.Build
import DiceNotation.Proofs.Command.WellFormed
import DiceNotation.Proofs.Grammar.Colon
import DiceNotation.Roll.Roller
import Mathlib.Logic.Function.Iterate

/-!
The reason of a command. A colon and what follows it change nothing but the reason: the same
command is built in front of it, or the same error is found at the same place. A roller that has
dropped its reason is the roller of the text in front of the colon.
-/
namespace DiceNotation

open Text Grammar

variable {limits : Limits}

structure Stripped (s inner : List Char) : Prop where
  within : ∃ front back, s = front ++ inner ++ back ∧ ∀ x ∈ front ++ back, isSpace x = true
  head : ∀ x ∈ inner.head?, isSpace x = false
  last : ∀ x ∈ inner.getLast?, isSpace x = false

theorem head_dropWhile (p : Char → Bool) (s : List Char) :
    ∀ x ∈ (s.dropWhile p).head?, p x = false := by
  intro x first
  have stops := List.head?_dropWhile_not p s
  rw [Option.mem_def.mp first] at stops
  exact stops

theorem trim_stripped (s : List Char) : Stripped s (trim s) := by
  have start := List.takeWhile_append_dropWhile (p := isSpace) (l := s)
  have ending : trim s ++ ((trimStart s).reverse.takeWhile isSpace).reverse = trimStart s := by
    rw [trim, trimEnd, dropEndWhile, ← List.reverse_append, List.takeWhile_append_dropWhile,
      List.reverse_reverse]
  refine ⟨⟨s.takeWhile isSpace, ((trimStart s).reverse.takeWhile isSpace).reverse, ?_, ?_⟩, ?_, ?_⟩
  · rw [List.append_assoc, ending]
    exact start.symm
  · intro x member
    rcases List.mem_append.mp member with front | back
    · exact List.mem_takeWhile_imp front
    · exact List.mem_takeWhile_imp (List.mem_reverse.mp back)
  · intro x first
    obtain ⟨more, eq⟩ := List.head?_eq_some_iff.mp (Option.mem_def.mp first)
    apply head_dropWhile isSpace s x
    change x ∈ (trimStart s).head?
    rw [← ending, eq]
    simp
  · intro x last
    apply head_dropWhile isSpace (trimStart s).reverse x
    rwa [trim, trimEnd, dropEndWhile, List.getLast?_reverse] at last

def BuildError.inText (text : String) : BuildError → BuildError
  | stuck _ place => stuck text place
  | fault f => fault f
  | longNumeral rule digits => longNumeral rule digits

theorem Grammar.CommandPhrase.build_reason (c : CommandPhrase) (w : Word) :
    { c with reason := some w }.build limits = (c.build limits).map fun command =>
      { command with reason := some (String.ofList (trim (w.lexeme.drop 1))) } := by
  unfold build
  cases c.body.build limits <;> rfl

theorem Command.parse_colon (limits : Limits) {p : String} (colon : ':' ∉ p.toList) (r : String) :
    Command.parse (p ++ ":" ++ r) limits =
      match Command.parse p limits with
      | .ok command => .ok { command with reason := some (String.ofList (trim r.toList)) }
      | .error e => .error (e.inText (p ++ ":" ++ r)) := by
  have spelled : (p ++ ":" ++ r).toList = p.toList ++ ':' :: r.toList := by simp
  have reading : WithReason r.toList (Grammar.read p.toList)
      (Grammar.read (p.toList ++ ':' :: r.toList)) := read_colon colon
  rw [Command.parse, Command.parse, spelled]
  generalize Grammar.read p.toList = plain, Grammar.read (p.toList ++ ':' :: r.toList) = whole
    at reading
  cases reading with
  | stuck place => simp only [BuildError.inText]
  | read phrase gap =>
    simp only [CommandPhrase.build_reason]
    have checked := NeverStuck.command limits phrase
    cases built : phrase.build limits with
    | ok command => simp only [Except.map, List.drop_one, List.tail_cons]
    | error e =>
      cases e with
      | stuck text place => exact absurd built (checked text place)
      | fault f => simp only [Except.map, BuildError.inText]
      | longNumeral rule digits => simp only [Except.map, BuildError.inText]

theorem Command.parse_trimEnd {text : String} {command : Command} (colon : ':' ∉ text.toList)
    (h : Command.parse text limits = .ok command) : command.reason = none ∧
      Command.parse (String.ofList (trimEnd text.toList)) limits = .ok command ∧
      ∃ blanks : List Char, (∀ x ∈ blanks, isBlank x = true) ∧
        text.toList = trimEnd text.toList ++ blanks := by
  unfold Command.parse at h
  cases reading : Grammar.read text.toList with
  | error place =>
    rw [reading] at h
    cases h
  | ok phrase =>
    rw [reading] at h
    obtain ⟨absent, again, behind⟩ := read_trimEnd reading colon
    refine ⟨?_, ?_, behind⟩
    · obtain ⟨body, _, built⟩ := bind_eq_ok h
      cases built
      simp [absent]
    · rw [Command.parse, String.toList_ofList, again]
      exact h

theorem Command.parse_before_colon {p r : String} {command : Command} (colon : ':' ∉ p.toList)
    (h : Command.parse (p ++ ":" ++ r) limits = .ok command) :
    Command.parse (String.ofList (trimEnd p.toList)) limits =
      .ok { command with reason := none } := by
  rw [Command.parse_colon limits colon] at h
  cases built : Command.parse p limits with
  | error e =>
    rw [built] at h
    cases h
  | ok bare =>
    rw [built] at h
    obtain rfl := Except.ok.inj h
    obtain ⟨absent, again, _⟩ := Command.parse_trimEnd colon built
    rw [again, ← absent]

/-- Rollers that differ at most in the blanks at the end of their texts. -/
structure Roller.Alike (a b : Roller) : Prop where
  text : ∃ blanks : List Char, (∀ x ∈ blanks, isBlank x = true) ∧
    a.text.toList = b.text.toList ++ blanks
  command : a.command = b.command
  limits : a.limits = b.limits
  reason : a.reason = b.reason
  diceTexts : a.diceTexts = b.diceTexts
  roll : ∀ (σ : Type) [Source σ], (a.roll : Rolling σ Result) = b.roll

theorem Roller.alike_of_command {a b : Roller} (blanks : List Char)
    (blank : ∀ x ∈ blanks, isBlank x = true) (text : a.text.toList = b.text.toList ++ blanks)
    (command : a.command = b.command) (limits : a.limits = b.limits) : a.Alike b where
  text := ⟨blanks, blank, text⟩
  command := command
  limits := limits
  reason := congrArg Command.reason command
  diceTexts := by rw [diceTexts, command, ← diceTexts]
  roll := by
    intro σ _
    obtain ⟨_, _, _⟩ := a
    obtain ⟨_, _, _⟩ := b
    obtain rfl : _ = _ := command
    obtain rfl : _ = _ := limits
    rfl

theorem Roller.dropReason_of_not_mem {r : Roller} (colon : ':' ∉ r.text.toList) :
    r.dropReason = r := by
  simp only [dropReason, if_neg colon]

theorem Roller.ofText_eq_ok {text : String} {roller : Roller} :
    Roller.ofText text limits = .ok roller ↔
      ∃ command, Command.parse text limits = .ok command ∧ roller = ⟨text, command, limits⟩ := by
  constructor
  · intro h
    obtain ⟨command, parsed, built⟩ := bind_eq_ok h
    cases built
    exact ⟨command, parsed, rfl⟩
  · rintro ⟨command, parsed, rfl⟩
    rw [ofText, parsed]
    rfl

theorem forall_ne_colon {p : List Char} (colon : ':' ∉ p) : ∀ x ∈ p, (x != ':') = true := by
  intro x member
  rw [bne_iff_ne]
  rintro rfl
  exact colon member

theorem takeWhile_before_colon {p : List Char} (colon : ':' ∉ p) (r : List Char) :
    (p ++ ':' :: r).takeWhile (· != ':') = p := by
  rw [List.takeWhile_append_of_pos (forall_ne_colon colon)]
  simp

theorem Roller.dropReason_alike {text : String} {roller : Roller}
    (h : Roller.ofText text limits = .ok roller) :
    ∃ fresh, Roller.ofText
        (String.ofList (trimEnd (text.toList.takeWhile (· != ':')))) limits = .ok fresh ∧
      ':' ∉ roller.dropReason.text.toList ∧ roller.dropReason.Alike fresh := by
  obtain ⟨command, parsed, rfl⟩ := Roller.ofText_eq_ok.mp h
  by_cases colon : ':' ∈ text.toList
  · obtain ⟨p, r, split, front⟩ := List.eq_append_cons_of_mem colon
    have whole : text = String.ofList p ++ ":" ++ String.ofList r :=
      String.toList_inj.mp (by simp [split])
    rw [whole] at parsed
    have again := Command.parse_before_colon (by rwa [String.toList_ofList]) parsed
    rw [String.toList_ofList] at again
    have shorter := dropEndWhile_prefix isSpace p
    have trimmed : ':' ∉ trimEnd p := fun member => front (shorter.subset member)
    have dropped : Roller.dropReason ⟨text, command, limits⟩ =
        ⟨String.ofList (trimEnd p), { command with reason := none }, limits⟩ := by
      simp only [Roller.dropReason, split, if_pos (List.mem_append_right p List.mem_cons_self),
        takeWhile_before_colon front]
    rw [dropped, split, takeWhile_before_colon front]
    refine ⟨_, Roller.ofText_eq_ok.mpr ⟨_, again, rfl⟩, ?_, ?_⟩
    · rwa [String.toList_ofList]
    · exact Roller.alike_of_command [] nofun (List.append_nil _).symm rfl rfl
  · obtain ⟨_, again, blanks, blank, split⟩ := Command.parse_trimEnd colon parsed
    rw [List.takeWhile_eq_self_iff.mpr (forall_ne_colon colon), Roller.dropReason_of_not_mem colon]
    refine ⟨_, Roller.ofText_eq_ok.mpr ⟨command, again, rfl⟩, colon, ?_⟩
    refine Roller.alike_of_command blanks blank ?_ rfl rfl
    rwa [String.toList_ofList]

/-- A reason says nothing about the command in front of it, and dropping it, once or more often,
leaves the roller of the text in front of the first colon. -/
theorem Command.reason_independent (limits : Limits) :
    (∀ p r : String, ':' ∉ p.toList →
      match Command.parse p limits with
      | .ok command => Stripped r.toList (trim r.toList) ∧ Command.parse (p ++ ":" ++ r) limits =
          .ok { command with reason := some (String.ofList (trim r.toList)) }
      | .error e => Command.parse (p ++ ":" ++ r) limits = .error (e.inText (p ++ ":" ++ r))) ∧
    ∀ (text : String) (roller : Roller) (n : Nat), Roller.ofText text limits = .ok roller →
      ∃ fresh, Roller.ofText
          (String.ofList (trimEnd (text.toList.takeWhile (· != ':')))) limits = .ok fresh ∧
        (Roller.dropReason^[n + 1] roller).Alike fresh := by
  refine ⟨?_, ?_⟩
  · intro p r colon
    have parsed := Command.parse_colon limits colon r
    cases built : Command.parse p limits with
    | ok command =>
      rw [built] at parsed
      exact ⟨trim_stripped r.toList, parsed⟩
    | error e =>
      rw [built] at parsed
      exact parsed
  · intro text roller n h
    obtain ⟨fresh, again, plain, alike⟩ := Roller.dropReason_alike h
    refine ⟨fresh, again, ?_⟩
    rw [Function.iterate_succ_apply, Function.iterate_fixed (Roller.dropReason_of_not_mem plain)]
    exact alike

theorem attack_reason_dropped :
    ':' ∉ "2d6 + 1 ".toList ∧ Stripped " to hit: 1d4\n".toList "to hit: 1d4".toList ∧
      ∃ command roller fresh, Command.parse "2d6 + 1 " {} = .ok command ∧
        Command.parse "2d6 + 1 : to hit: 1d4\n" {} =
          .ok { command with reason := some "to hit: 1d4" } ∧
        Roller.ofText "2d6 + 1 : to hit: 1d4\n" {} = .ok roller ∧
        Roller.ofText "2d6 + 1" {} = .ok fresh ∧
        (Roller.dropReason^[3] roller).Alike fresh := by
  obtain ⟨independent, dropped⟩ := Command.reason_independent {}
  have colon : ':' ∉ "2d6 + 1 ".toList := by decide
  have parsed : Command.parse "2d6 + 1 " {} = .ok ⟨.once (.binary .add
      (.dice ⟨2, some 6, [], none, "2d6"⟩) (.integer 1)), none, "2d6 + 1"⟩ := by cbv
  have behind := independent "2d6 + 1 " " to hit: 1d4\n" colon
  rw [parsed] at behind
  have rolled : Roller.ofText "2d6 + 1 : to hit: 1d4\n" {} = .ok ⟨"2d6 + 1 : to hit: 1d4\n",
      ⟨.once (.binary .add (.dice ⟨2, some 6, [], none, "2d6"⟩) (.integer 1)),
        some "to hit: 1d4", "2d6 + 1"⟩, {}⟩ := by cbv
  obtain ⟨fresh, again, alike⟩ := dropped _ _ 2 rolled
  exact ⟨colon, behind.1, _, _, fresh, parsed, behind.2, rolled, again, alike⟩

end DiceNotation
