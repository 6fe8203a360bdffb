import DiceNotation.Proofs.Decimal.Text
import DiceNotation.Proofs.Dice.Ledger
import DiceNotation.Proofs.Result.Rendering
import DiceNotation.Proofs.Roll.Replay
import DiceNotation.Proofs.Roll.Successes

/-!
The plain line of a history is faithful: all that counts in the history can be seen in it. Numbers
stand side by side without anything between them, so this is not true of every list of entries; but
in the history of an evaluation something always stands between two numbers.
-/
namespace DiceNotation

open Text Decimal

structure SeenDie where
  value : Int
  exploded : Bool
  live : Bool
  deriving DecidableEq, Repr

/-- Dice are seen to be fudge dice or not; their number of sides is not seen. -/
inductive SeenItem where
  | roll (fudge : Bool) (dice : List SeenDie)
  | value (value : Decimal)
  | operator (op : Operator)
  | paren (p : Paren)
  deriving DecidableEq, Repr

def Die.seen (d : Die) : SeenDie := ⟨d.value, d.exploded, d.live⟩

def HistoryItem.seen : HistoryItem → SeenItem
  | roll term => .roll term.sides.isNone (term.dice.map Die.seen)
  | value d => .value d
  | operator op => .operator op
  | paren p => .paren p

def faceChars (fudge : Bool) (value : Int) : List Char :=
  if fudge then [if value = -1 then '-' else if value = 0 then '▢' else '+']
  else (signedNumeral value).toList

namespace SeenDie

def Fits (fudge : Bool) (d : SeenDie) : Prop :=
  if fudge then -1 ≤ d.value ∧ d.value ≤ 1 else 1 ≤ d.value

def marked (fudge : Bool) (d : SeenDie) : List Char :=
  faceChars fudge d.value ++ if d.exploded then ['!'] else []

def chars (fudge : Bool) (d : SeenDie) : List Char :=
  if d.live then d.marked fudge else ['~', '~'] ++ d.marked fudge ++ ['~', '~']

end SeenDie

namespace SeenItem

def Fits : SeenItem → Prop
  | roll fudge dice => dice ≠ [] ∧ ∀ d ∈ dice, d.Fits fudge
  | _ => True

def chars : SeenItem → List Char
  | roll fudge dice =>
      '[' :: ([',', ' '].intercalate (dice.map (SeenDie.chars fudge)) ++ [']'])
  | value d => d.textChars
  | operator op => ' ' :: (op.symbol.toList ++ [' '])
  | paren p => p.symbol.toList

end SeenItem

def SeenItem.counted : SeenItem → Option (List Int)
  | roll _ dice => some ((dice.filter SeenDie.live).map SeenDie.value)
  | _ => none

theorem liveValues_seen (dice : List Die) :
    liveValues dice = ((dice.map Die.seen).filter SeenDie.live).map SeenDie.value := by
  rw [List.filter_map, List.map_map]
  rfl

theorem counted_seen (history : List HistoryItem) :
    (rolledTerms history).map (fun term => liveValues term.dice) =
      (history.map HistoryItem.seen).filterMap SeenItem.counted := by
  rw [rolledTerms, List.map_filterMap, List.filterMap_map]
  congr 1
  funext item
  cases item with
  | roll term => exact congrArg some (liveValues_seen term.dice)
  | value d => rfl
  | operator op => rfl
  | paren p => rfl

theorem Die.shown_seen {d : Die} {fudge : Bool} (fits : d.seen.Fits fudge) :
    d.shown fudge false = .ok (String.ofList (d.seen.chars fudge)) := by
  have face : d.face fudge false = .ok (String.ofList (faceChars fudge d.value)) := by
    cases fudge with
    | false =>
      rw [faceChars, if_neg Bool.false_ne_true, String.ofList_toList]
      rfl
    | true =>
      obtain ⟨low, high⟩ : -1 ≤ d.value ∧ d.value ≤ 1 := fits
      have faces : d.value = -1 ∨ d.value = 0 ∨ d.value = 1 := by omega
      rw [Die.face, if_pos rfl]
      rcases faces with value | value | value <;> rw [value] <;> rfl
  rw [Die.shown, face]
  change Except.ok _ = _
  congr 1
  apply String.toList_inj.mp
  rw [String.toList_ofList, SeenDie.chars, SeenDie.marked]
  cases exploded : d.exploded <;> cases live : d.live <;>
    simp [seen, exploded, live, String.toList_append]

theorem HistoryItem.shown_seen {item : HistoryItem} (fits : item.seen.Fits) :
    item.shown false = .ok (String.ofList item.seen.chars) := by
  cases item with
  | roll term =>
    have each : ∀ d ∈ term.dice, d.shown term.sides.isNone false =
        .ok (String.ofList (d.seen.chars term.sides.isNone)) :=
      fun d member => Die.shown_seen (fits.2 d.seen (List.mem_map_of_mem member))
    rw [shown, mapM_eq_ok_map each]
    change Except.ok _ = _
    congr 1
    apply String.toList_inj.mp
    simp [seen, SeenItem.chars, String.toList_append, String.toList_intercalate, Function.comp_def]
  | value d => rfl
  | operator op =>
    change Except.ok _ = _
    congr 1
    apply String.toList_inj.mp
    simp [seen, SeenItem.chars, String.toList_append]
  | paren p =>
    change Except.ok p.symbol = _
    rw [seen, SeenItem.chars, String.ofList_toList]

theorem historyText_seen {history : List HistoryItem}
    (fits : ∀ item ∈ history, item.seen.Fits) : historyText history false =
      .ok (String.ofList ((history.map HistoryItem.seen).flatMap SeenItem.chars)) := by
  rw [historyText, mapM_eq_ok_map fun item member => HistoryItem.shown_seen (fits item member)]
  change Except.ok _ = _
  congr 1
  apply String.toList_inj.mp
  simp [String.toList_join, List.flatMap_map]

def isFace (c : Char) : Bool := c.isDigit || c == '-' || c == '▢' || c == '+'

theorem faceChars_number {value : Int} (positive : 1 ≤ value) :
    faceChars false value = numeral value.natAbs := by
  rw [faceChars, if_neg Bool.false_ne_true, signedNumeral, String.toList_ofList, if_neg (by omega)]

namespace SeenDie

variable {fudge fudge' : Bool} {d e : SeenDie}

theorem isFace_of_mem (fits : d.Fits fudge) :
    ∀ c ∈ faceChars fudge d.value, isFace c = true := by
  cases fudge with
  | false =>
    rw [faceChars_number fits]
    intro c member
    simp [isFace, isDigit_of_mem_numeral member]
  | true =>
    rw [faceChars, if_pos rfl, List.forall_mem_singleton]
    split
    · rfl
    · split <;> rfl

theorem faceChars_fudge (value other : Int) (positive : 1 ≤ other) :
    faceChars true value ≠ faceChars false other := by
  rw [faceChars_number positive, faceChars, if_pos rfl]
  intro same
  have digit := isDigit_of_mem_numeral (n := other.natAbs) (same ▸ List.mem_singleton_self _)
  split at digit
  · cases digit
  · split at digit <;> cases digit

theorem faceChars_injective (fits : d.Fits fudge) (fits' : e.Fits fudge')
    (same : faceChars fudge d.value = faceChars fudge' e.value) :
    fudge = fudge' ∧ d.value = e.value := by
  cases fudge <;> cases fudge'
  · have positive : 1 ≤ d.value := fits
    have positive' : 1 ≤ e.value := fits'
    rw [faceChars_number fits, faceChars_number fits'] at same
    have numbers := congrArg numeralValue same
    rw [numeralValue_numeral, numeralValue_numeral] at numbers
    exact ⟨rfl, by omega⟩
  · exact absurd same.symm (faceChars_fudge _ _ fits)
  · exact absurd same (faceChars_fudge _ _ fits')
  · obtain ⟨low, high⟩ : -1 ≤ d.value ∧ d.value ≤ 1 := fits
    obtain ⟨low', high'⟩ : -1 ≤ e.value ∧ e.value ≤ 1 := fits'
    have faces : d.value = -1 ∨ d.value = 0 ∨ d.value = 1 := by omega
    have faces' : e.value = -1 ∨ e.value = 0 ∨ e.value = 1 := by omega
    refine ⟨rfl, ?_⟩
    revert same
    rcases faces with value | value | value <;> rcases faces' with other | other | other <;>
      rw [value, other] <;> decide

theorem not_isFace : isFace '!' = false ∧ isFace '~' = false ∧ isFace ',' = false ∧
    isFace ']' = false := by
  decide

theorem marked_injective (fits : d.Fits fudge) (fits' : e.Fits fudge')
    (same : d.marked fudge = e.marked fudge') :
    fudge = fudge' ∧ d.value = e.value ∧ d.exploded = e.exploded := by
  have stops (exploded : Bool) :
      ∀ c ∈ (if exploded then ['!'] else []).head?, isFace c = false := by
    cases exploded with
    | false => exact nofun
    | true =>
      rintro _ ⟨⟩
      exact not_isFace.1
  obtain ⟨face, marks⟩ := append_injective (isFace_of_mem fits) (isFace_of_mem fits')
    (stops d.exploded) (stops e.exploded) same
  obtain ⟨kind, value⟩ := faceChars_injective fits fits' face
  refine ⟨kind, value, ?_⟩
  cases exploded : d.exploded <;> cases exploded' : e.exploded <;>
    simp [exploded, exploded'] at marks ⊢

theorem mem_marked (fits : d.Fits fudge) {c : Char} (member : c ∈ d.marked fudge) :
    isFace c = true ∨ c = '!' := by
  rcases List.mem_append.mp member with face | mark
  · exact .inl (isFace_of_mem fits c face)
  · split at mark
    · exact .inr (List.mem_singleton.mp mark)
    · cases mark

theorem mem_chars (fits : d.Fits fudge) {c : Char} (member : c ∈ d.chars fudge) :
    isFace c = true ∨ c = '!' ∨ c = '~' := by
  unfold chars at member
  split at member
  · exact (mem_marked fits member).imp_right .inl
  · simp only [List.mem_append, List.mem_cons, List.not_mem_nil, or_false, or_self] at member
    rcases member with (tilde | inside) | tilde
    · exact .inr (.inr tilde)
    · exact (mem_marked fits inside).imp_right .inl
    · exact .inr (.inr tilde)

theorem not_struck (fits : d.Fits fudge) (rest : List Char) : d.marked fudge ≠ '~' :: rest := by
  intro same
  have member : '~' ∈ d.marked fudge := same ▸ List.mem_cons_self
  rcases mem_marked fits member with face | mark
  · rw [not_isFace.2.1] at face
    cases face
  · cases mark

theorem chars_injective (fits : d.Fits fudge) (fits' : e.Fits fudge')
    (same : d.chars fudge = e.chars fudge') : fudge = fudge' ∧ d = e := by
  have parts : d.live = e.live ∧ d.marked fudge = e.marked fudge' := by
    unfold chars at same
    split at same
    · rename_i live
      split at same
      · rename_i live'
        exact ⟨live.trans live'.symm, same⟩
      · exact absurd same (not_struck fits _)
    · rename_i struck
      split at same
      · exact absurd same.symm (not_struck fits' _)
      · rename_i struck'
        rw [Bool.not_eq_true] at struck struck'
        rw [List.append_cancel_right_eq, List.append_cancel_left_eq] at same
        exact ⟨struck.trans struck'.symm, same⟩
  obtain ⟨kind, value, exploded⟩ := marked_injective fits fits' parts.2
  refine ⟨kind, ?_⟩
  cases d
  cases e
  rw [SeenDie.mk.injEq]
  exact ⟨value, exploded, parts.1⟩

theorem plain_of_mem_chars (fits : d.Fits fudge) :
    ∀ c ∈ d.chars fudge, (c != ',') = true ∧ (c != ']') = true := by
  obtain ⟨_, _, comma, bracket⟩ := not_isFace
  intro c member
  rw [bne_iff_ne, bne_iff_ne]
  rcases mem_chars fits member with face | rfl | rfl
  · constructor
    · rintro rfl
      rw [comma] at face
      cases face
    · rintro rfl
      rw [bracket] at face
      cases face
  · decide
  · decide

def others (fudge : Bool) (dice : List SeenDie) : List Char :=
  dice.flatMap fun d => [',', ' '] ++ d.chars fudge

theorem others_stop (fudge : Bool) (dice : List SeenDie) :
    ∀ c ∈ (others fudge dice).head?, (c != ',') = false := by
  cases dice with
  | nil => exact nofun
  | cons d dice =>
    rintro _ ⟨⟩
    rfl

theorem first_injective {ds es : List SeenDie} (fits : d.Fits fudge) (fits' : e.Fits fudge')
    (same : d.chars fudge ++ others fudge ds = e.chars fudge' ++ others fudge' es) :
    fudge = fudge' ∧ d = e ∧ others fudge ds = others fudge' es := by
  obtain ⟨first, rest⟩ := append_injective (fun c member => (plain_of_mem_chars fits c member).1)
    (fun c member => (plain_of_mem_chars fits' c member).1) (others_stop fudge ds)
    (others_stop fudge' es) same
  obtain ⟨kind, die⟩ := chars_injective fits fits' first
  exact ⟨kind, die, rest⟩

theorem others_injective {ds es : List SeenDie} (fits : ∀ d ∈ ds, d.Fits fudge)
    (fits' : ∀ e ∈ es, e.Fits fudge') (same : others fudge ds = others fudge' es) : ds = es := by
  induction ds generalizing es with
  | nil =>
    cases es with
    | nil => rfl
    | cons e es => cases same
  | cons d ds ih =>
    cases es with
    | nil => cases same
    | cons e es =>
      rw [List.forall_mem_cons] at fits fits'
      simp only [others, List.flatMap_cons, List.append_assoc, List.append_cancel_left_eq] at same
      obtain ⟨_, rfl, rest⟩ := first_injective fits.1 fits'.1 same
      rw [ih fits.2 fits'.2 rest]

end SeenDie

theorem intercalate_cons (sep x : List Char) (xs : List (List Char)) :
    sep.intercalate (x :: xs) = x ++ xs.flatMap (sep ++ ·) := by
  induction xs generalizing x with
  | nil => simp
  | cons y xs ih =>
    rw [List.intercalate_cons_cons, ih, List.flatMap_cons, List.append_assoc, List.append_assoc]

inductive ItemKind where
  | roll | value | operator | paren
  deriving DecidableEq

def ItemKind.ofFirst (c : Char) : ItemKind :=
  if c = '[' then .roll else if c = ' ' then .operator
  else if c = '(' ∨ c = ')' then .paren else .value

theorem ItemKind.ofFirst_number {c : Char} (member : c ∈ numberChars) : ofFirst c = .value := by
  have all : numberChars.all (ofFirst · == .value) = true := by decide
  exact beq_iff_eq.mp (List.all_eq_true.mp all c member)

theorem Decimal.textChars_number (d : Decimal) :
    d.textChars ≠ [] ∧ ∀ c ∈ d.textChars, c ∈ numberChars := by
  obtain ⟨p, stands, written⟩ := textChars_parts d
  have nonempty : p.spell ≠ [] := List.append_ne_nil_of_left_ne_nil stands.whole _
  have plain := mem_spell stands
  rw [written]
  split
  · exact ⟨List.cons_ne_nil _ _, List.forall_mem_cons.mpr ⟨by decide, plain⟩⟩
  · exact ⟨nonempty, plain⟩

namespace SeenItem

def kind : SeenItem → ItemKind
  | roll _ _ => .roll
  | value _ => .value
  | operator _ => .operator
  | paren _ => .paren

variable {a b : SeenItem}

theorem chars_first (a : SeenItem) :
    ∃ c rest, a.chars = c :: rest ∧ ItemKind.ofFirst c = a.kind := by
  cases a with
  | roll fudge dice => exact ⟨'[', _, rfl, rfl⟩
  | value d =>
    obtain ⟨nonempty, plain⟩ := d.textChars_number
    obtain ⟨c, rest, first⟩ := List.exists_cons_of_ne_nil nonempty
    rw [first] at plain
    exact ⟨c, rest, first, ItemKind.ofFirst_number (plain c List.mem_cons_self)⟩
  | operator op => exact ⟨' ', _, rfl, rfl⟩
  | paren p =>
    cases p with
    | opening => exact ⟨'(', [], rfl, rfl⟩
    | closing => exact ⟨')', [], rfl, rfl⟩

theorem kind_eq {x y : List Char} (same : a.chars ++ x = b.chars ++ y) : a.kind = b.kind := by
  obtain ⟨c, rest, first, kind⟩ := a.chars_first
  obtain ⟨c', rest', first', kind'⟩ := b.chars_first
  rw [first, first', List.cons_append, List.cons_append, List.cons.injEq] at same
  rw [← kind, ← kind', same.1]

def Ends (a : SeenItem) (behind : List Char) : Prop :=
  a.kind = .value → ∀ c ∈ behind.head?, ItemKind.ofFirst c ≠ .value

theorem chars_roll (fudge : Bool) (d : SeenDie) (ds : List SeenDie) :
    (roll fudge (d :: ds)).chars = '[' :: (d.chars fudge ++ SeenDie.others fudge ds ++ [']']) := by
  rw [chars, List.map_cons, intercalate_cons, List.flatMap_map]
  rfl

theorem row_stop {fudge : Bool} {d : SeenDie} {ds : List SeenDie}
    (fits : ∀ e ∈ d :: ds, e.Fits fudge) :
    ∀ c ∈ d.chars fudge ++ SeenDie.others fudge ds, (c != ']') = true := by
  have die {e : SeenDie} (member : e ∈ d :: ds) : ∀ c ∈ e.chars fudge, (c != ']') = true :=
    fun c inside => (SeenDie.plain_of_mem_chars (fits e member) c inside).2
  rw [List.forall_mem_append]
  refine ⟨die List.mem_cons_self, ?_⟩
  intro c member
  obtain ⟨e, inside, written⟩ := List.mem_flatMap.mp member
  rcases List.mem_append.mp written with comma | shown
  · simp only [List.mem_cons, List.not_mem_nil, or_false] at comma
    rcases comma with rfl | rfl <;> rfl
  · exact die (List.mem_cons_of_mem d inside) c shown

theorem roll_injective {fudge fudge' : Bool} {ds es : List SeenDie} {x y : List Char}
    (fits : (roll fudge ds).Fits) (fits' : (roll fudge' es).Fits)
    (same : (roll fudge ds).chars ++ x = (roll fudge' es).chars ++ y) :
    roll fudge ds = roll fudge' es ∧ x = y := by
  obtain ⟨filled, each⟩ := fits
  obtain ⟨filled', each'⟩ := fits'
  obtain ⟨d, ds, rfl⟩ := List.exists_cons_of_ne_nil filled
  obtain ⟨e, es, rfl⟩ := List.exists_cons_of_ne_nil filled'
  rw [chars_roll, chars_roll, List.cons_append, List.cons_append, List.cons.injEq,
    List.append_assoc _ [']'], List.append_assoc _ [']']] at same
  have closes (rest : List Char) : ∀ c ∈ ([']'] ++ rest).head?, (c != ']') = false := by
    rintro _ ⟨⟩
    rfl
  obtain ⟨row, rest⟩ :=
    append_injective (row_stop each) (row_stop each') (closes x) (closes y) same.2
  rw [List.forall_mem_cons] at each each'
  obtain ⟨rfl, rfl, others⟩ := SeenDie.first_injective each.1 each'.1 row
  rw [SeenDie.others_injective each.2 each'.2 others]
  exact ⟨rfl, List.append_cancel_left rest⟩

theorem value_injective {d e : Decimal} {x y : List Char} (ends : (value d).Ends x)
    (ends' : (value e).Ends y) (same : (value d).chars ++ x = (value e).chars ++ y) :
    value d = value e ∧ x = y := by
  have number (d : Decimal) : ∀ c ∈ d.textChars, (ItemKind.ofFirst c == .value) = true :=
    fun c member => beq_iff_eq.mpr (ItemKind.ofFirst_number (d.textChars_number.2 c member))
  have stops {d : Decimal} {rest : List Char} (ends : (value d).Ends rest) :
      ∀ c ∈ rest.head?, (ItemKind.ofFirst c == .value) = false :=
    fun c first => beq_eq_false_iff_ne.mpr (ends rfl c first)
  obtain ⟨text, rest⟩ := append_injective (number d) (number e) (stops ends) (stops ends') same
  rw [textChars_injective text]
  exact ⟨rfl, rest⟩

theorem operator_injective {op op' : Operator} {x y : List Char}
    (same : (operator op).chars ++ x = (operator op').chars ++ y) :
    operator op = operator op' ∧ x = y := by
  have lengths : (operator op).chars.length = (operator op').chars.length := by
    cases op <;> cases op' <;> rfl
  obtain ⟨symbol, rest⟩ := List.append_inj same lengths
  refine ⟨?_, rest⟩
  revert symbol
  cases op <;> cases op' <;> decide

theorem paren_injective {p q : Paren} {x y : List Char}
    (same : (paren p).chars ++ x = (paren q).chars ++ y) : paren p = paren q ∧ x = y := by
  have lengths : (paren p).chars.length = (paren q).chars.length := by
    cases p <;> cases q <;> rfl
  obtain ⟨symbol, rest⟩ := List.append_inj same lengths
  refine ⟨?_, rest⟩
  revert symbol
  cases p <;> cases q <;> decide

/-- An item can be read off the front of a line, if no number goes on behind it. -/
theorem chars_append_injective (fits : a.Fits) (fits' : b.Fits) {x y : List Char}
    (ends : a.Ends x) (ends' : b.Ends y) (same : a.chars ++ x = b.chars ++ y) :
    a = b ∧ x = y := by
  have kinds := kind_eq same
  cases a with
  | roll fudge ds =>
    cases b with
    | roll fudge' es => exact roll_injective fits fits' same
    | _ => cases kinds
  | value d =>
    cases b with
    | value e => exact value_injective ends ends' same
    | _ => cases kinds
  | operator op =>
    cases b with
    | operator op' => exact operator_injective same
    | _ => cases kinds
  | paren p =>
    cases b with
    | paren q => exact paren_injective same
    | _ => cases kinds

def Apart (items : List SeenItem) : Prop :=
  items.IsChain fun a b => a.kind = .value → b.kind ≠ .value

theorem Apart.ends {items : List SeenItem} (apart : Apart (a :: items)) :
    a.Ends (items.flatMap chars) := by
  intro number c first
  cases items with
  | nil => cases first
  | cons b items =>
    obtain ⟨c', rest, shown, kind⟩ := b.chars_first
    rw [List.flatMap_cons, shown] at first
    cases first
    rw [kind]
    exact (List.isChain_cons_cons.mp apart).1 number

/-- What is seen in a history can be read off its line. -/
theorem line_injective {items others : List SeenItem} (fits : ∀ a ∈ items, a.Fits)
    (fits' : ∀ b ∈ others, b.Fits) (apart : Apart items) (apart' : Apart others)
    (same : items.flatMap chars = others.flatMap chars) : items = others := by
  induction items generalizing others with
  | nil =>
    cases others with
    | nil => rfl
    | cons b others =>
      obtain ⟨c, rest, shown, _⟩ := b.chars_first
      rw [List.flatMap_cons, shown] at same
      cases same
  | cons a items ih =>
    cases others with
    | nil =>
      obtain ⟨c, rest, shown, _⟩ := a.chars_first
      rw [List.flatMap_cons, shown] at same
      cases same
    | cons b others =>
      rw [List.forall_mem_cons] at fits fits'
      rw [List.flatMap_cons, List.flatMap_cons] at same
      obtain ⟨rfl, rest⟩ := chars_append_injective fits.1 fits'.1 apart.ends apart'.ends same
      rw [ih fits.2 fits'.2 apart.of_cons apart'.of_cons rest]

end SeenItem

/-- Without anything between them, two numbers look like one. -/
example : historyText [.value ⟨false, 1, 0⟩, .value ⟨false, 2, 0⟩] false =
    historyText [.value ⟨false, 12, 0⟩] false := by
  rfl

/-- Something stands between any two numbers, and every roll has a die. -/
structure Legible (history : List HistoryItem) : Prop where
  apart : SeenItem.Apart (history.map HistoryItem.seen)
  filled : ∀ term ∈ rolledTerms history, term.dice ≠ []

namespace Legible

variable {history behind : List HistoryItem}

theorem roll {term : RolledTerm} (filled : term.dice ≠ []) : Legible [.roll term] :=
  ⟨.singleton _, List.forall_mem_singleton.mpr filled⟩

theorem value (d : Decimal) : Legible [.value d] := ⟨.singleton _, nofun⟩

/-- Histories are joined by an item that is no number. -/
theorem join (h : Legible history) (k : Legible behind) {item : HistoryItem}
    (operator : item.seen.kind ≠ .value) (plain : rolledTerms [item] = []) :
    Legible (history ++ item :: behind) := by
  constructor
  · rw [SeenItem.Apart, List.map_append, List.map_cons, List.isChain_append]
    refine ⟨h.apart, ?_, ?_⟩
    · rw [List.isChain_cons]
      exact ⟨fun b _ number => absurd number operator, k.apart⟩
    · rintro a _ _ ⟨⟩ _
      exact operator
  · have terms : rolledTerms (history ++ item :: behind) =
        rolledTerms history ++ rolledTerms behind := by
      rw [← List.singleton_append, rolledTerms_append, rolledTerms_append, plain, List.nil_append]
    rw [terms, List.forall_mem_append]
    exact ⟨h.filled, k.filled⟩

theorem nil : Legible [] := ⟨.nil, nofun⟩

theorem group (h : Legible history) :
    Legible (.paren .opening :: history ++ [.paren .closing]) := by
  have opened : Legible (.paren .opening :: history) := nil.join h nofun rfl
  exact opened.join nil nofun rfl

theorem binary (h : Legible history) (k : Legible behind) (op : Operator) :
    Legible (history ++ .operator op :: behind) :=
  h.join k nofun rfl

theorem fits (h : Legible history) (inRange : ∀ term ∈ rolledTerms history, term.InRange) :
    ∀ item ∈ history, item.seen.Fits := by
  intro item member
  cases item with
  | roll term =>
    have inside : term ∈ rolledTerms history := List.mem_filterMap.mpr ⟨_, member, rfl⟩
    refine ⟨fun empty => h.filled term inside (List.map_eq_nil_iff.mp empty), ?_⟩
    rw [List.forall_mem_map]
    intro d die
    have face := inRange term inside d die
    cases sides : term.sides with
    | none =>
      rw [sides] at face
      exact face
    | some n =>
      rw [sides] at face
      exact face.1
  | value d => trivial
  | operator op => trivial
  | paren p => trivial

theorem faithful (h : Legible history) (k : Legible behind)
    (inRange : ∀ term ∈ rolledTerms history, term.InRange)
    (inRange' : ∀ term ∈ rolledTerms behind, term.InRange) :
    historyText history false = historyText behind false ↔
      history.map HistoryItem.seen = behind.map HistoryItem.seen := by
  have fits := h.fits inRange
  have fits' := k.fits inRange'
  rw [historyText_seen fits, historyText_seen fits', Except.ok.injEq]
  constructor
  · intro same
    have line := congrArg String.toList same
    rw [String.toList_ofList, String.toList_ofList] at line
    exact SeenItem.line_injective (List.forall_mem_map.mpr fits) (List.forall_mem_map.mpr fits')
      h.apart k.apart line
  · intro same
    rw [same]

end Legible

variable {σ τ : Type} [Source σ] [Source τ]

theorem DiceTerm.roll_filled {built : Limits} {t : DiceTerm} (h : t.WellFormed built)
    (limits : Limits) :
    Yields (t.roll limits : Rolling σ (RolledTerm × Total)) fun result => result.1.dice ≠ [] := by
  apply (t.rollDice_booked limits).bind
  intro dice books
  apply Yields.pure
  have length := books.length
  have positive := h.count.1
  apply List.ne_nil_of_length_pos
  dsimp only
  omega

theorem Legible.inherited (limits built : Limits) :
    Inherited (σ := σ) limits built Legible where
  roll t h := by
    apply (DiceTerm.roll_filled h limits).mono
    intro result filled
    exact .roll filled
  value d _ := .value d
  group _ h := h.group
  binary op _ _ h k := h.binary k op

/-- Whatever dice with at least one side the source answers, its faces are faces of theirs. It need
not answer all of them. -/
def Ranged (s : σ) : Prop :=
  ∀ ⦃draws : List Draw⦄ ⦃now : σ⦄, Answers s draws now → (∀ d ∈ draws, 1 ≤ d.sides) →
    ∀ d ∈ draws, d.Possible

theorem Fair.ranged {s : σ} (fair : Fair s) : Ranged s := fun _ _ answers => fair.possible answers

theorem Congruential.ranged (c : Congruential) : Ranged c := c.fair.ranged

theorem Script.take_eq_ok {s next : Script} {value face : Int} {upcoming : List Int} {sides : Int}
    (h : s.take value upcoming sides = (.ok face, next)) : 1 ≤ face ∧ face ≤ sides := by
  unfold take at h
  split at h
  · rename_i fits
    cases h
    exact fits
  · cases h

theorem Script.ranged (s : Script) : Ranged s := by
  intro draws now answers sided
  induction answers with
  | nil s => exact nofun
  | @cons s next last d draws answer rest ih =>
    rw [List.forall_mem_cons] at sided ⊢
    refine ⟨⟨sided.1, ?_⟩, ih sided.2⟩
    change s.draw d.sides = (.ok d.face, next) at answer
    unfold draw at answer
    split at answer
    · exact take_eq_ok answer
    · exact take_eq_ok answer
    · cases answer

theorem Expression.evaluate_inRange {built : Limits} {e : Expression} (h : e.WellFormed built)
    (limits : Limits) {s last : σ} (ranged : Ranged s) {evaluation : Evaluation}
    (ran : (e.evaluate limits : Rolling σ Evaluation).run s = (.ok evaluation, last)) :
    ∀ term ∈ rolledTerms evaluation.history, term.InRange := by
  obtain ⟨draws, answers, drawn, _⟩ := e.evaluate_follows (τ := σ) limits ran
  obtain ⟨rfl, sided⟩ := drawn
  have possible := ranged answers (sided (Expression.sided_of_wellFormed h))
  intro term inside d die
  obtain ⟨item, member, rolled⟩ := List.mem_filterMap.mp inside
  cases item with
  | roll term' =>
    obtain rfl := Option.some.inj rolled
    apply Die.inRange_of_draw
    exact possible _ (List.mem_flatMap.mpr ⟨_, member, List.mem_map_of_mem die⟩)
  | _ => cases rolled

/-- Expressions of any two commands are evaluated, each on a source whose faces are in range. Both
histories have a plain line, and these lines are the same only if the histories are seen to be the
same: as many items, dice of one kind with the same values, explosions and liveness, numbers with
the same digits and places, the same operators and parentheses, each in the same place. So from the
line it is known which values count. -/
theorem plain_history_faithful {text text' : String} {built built' : Limits}
    {command command' : Command} (parsed : Command.parse text built = .ok command)
    (parsed' : Command.parse text' built' = .ok command') {e e' : Expression}
    (part : e ∈ command.body.expression.parts) (part' : e' ∈ command'.body.expression.parts)
    (limits limits' : Limits) {s last : σ} {s' last' : τ} (ranged : Ranged s) (ranged' : Ranged s')
    {evaluation evaluation' : Evaluation}
    (ran : (e.evaluate limits : Rolling σ Evaluation).run s = (.ok evaluation, last))
    (ran' : (e'.evaluate limits' : Rolling τ Evaluation).run s' = (.ok evaluation', last')) :
    (∃ line, historyText evaluation.history false = .ok line) ∧
      (∃ line, historyText evaluation'.history false = .ok line) ∧
      (historyText evaluation.history false = historyText evaluation'.history false ↔
        evaluation.history.map HistoryItem.seen = evaluation'.history.map HistoryItem.seen) ∧
      (historyText evaluation.history false = historyText evaluation'.history false →
        (rolledTerms evaluation.history).map (fun term => liveValues term.dice) =
          (rolledTerms evaluation'.history).map fun term => liveValues term.dice) := by
  have wellFormed := Expression.wellFormed_of_mem_parts (Command.expression_wellFormed parsed) part
  have wellFormed' :=
    Expression.wellFormed_of_mem_parts (Command.expression_wellFormed parsed') part'
  have inRange := Expression.evaluate_inRange wellFormed limits ranged ran
  have inRange' := Expression.evaluate_inRange wellFormed' limits' ranged' ran'
  have legible := ((Legible.inherited limits built).evaluate limits wellFormed).result ran
  have legible' := ((Legible.inherited limits' built').evaluate limits' wellFormed').result ran'
  have faithful := legible.faithful legible' inRange inRange'
  refine ⟨historyText_shows inRange false, historyText_shows inRange' false, faithful, ?_⟩
  intro same
  rw [counted_seen, counted_seen, faithful.mp same]

/-- Keeping the higher of two dice looks like dropping the lower one, and the sides are not seen. -/
theorem kept_and_dropped_alike :
    ∃ (command command' : Command) (e e' : Expression) (evaluation evaluation' : Evaluation)
      (last : Congruential) (last' : Script),
      Command.parse "2d6K1 + 3" {} = .ok command ∧ Command.parse "2d8d1 + 3" {} = .ok command' ∧
      command.body = .once e ∧ command'.body = .once e' ∧
      Ranged (Congruential.ofSeed 64) ∧ Ranged (Script.ofList [2, 5] false) ∧
      (e.evaluate {} : Rolling Congruential Evaluation).run (.ofSeed 64) =
        (.ok evaluation, last) ∧
      (e'.evaluate {} : Rolling Script Evaluation).run (Script.ofList [2, 5] false) =
        (.ok evaluation', last') ∧
      historyText evaluation.history false = .ok "[~~2~~, 5] + 3" ∧
      evaluation.history.map HistoryItem.seen = evaluation'.history.map HistoryItem.seen := by
  obtain ⟨e, shown⟩ : ∃ e : Expression, e = .binary .add
    (.dice ⟨2, some 6, [⟨.keepHigh, some 1⟩], none, "2d6K1"⟩) (.integer 3) := ⟨_, rfl⟩
  obtain ⟨e', shown'⟩ : ∃ e : Expression, e = .binary .add
    (.dice ⟨2, some 8, [⟨.dropLow, some 1⟩], none, "2d8d1"⟩) (.integer 3) := ⟨_, rfl⟩
  let history (text : String) (sides : Int) : List HistoryItem :=
    [.roll ⟨text, some sides, [{ value := 2, dropped := true }, { value := 5 }]⟩, .operator .add,
      .value (.ofInt 3)]
  have parsed : Command.parse "2d6K1 + 3" {} = .ok ⟨.once e, none, "2d6K1 + 3"⟩ := by
    rw [shown]
    cbv
  have parsed' : Command.parse "2d8d1 + 3" {} = .ok ⟨.once e', none, "2d8d1 + 3"⟩ := by
    rw [shown']
    cbv
  have ran : (e.evaluate {} : Rolling Congruential Evaluation).run (.ofSeed 64) =
      (.ok ⟨.ofInt 8, history "2d6K1" 6, false⟩, ⟨2088939710, [6, 6]⟩) := by
    rw [shown]
    cbv
  have ran' : (e'.evaluate {} : Rolling Script Evaluation).run (Script.ofList [2, 5] false) =
      (.ok ⟨.ofInt 8, history "2d8d1" 8, false⟩, ⟨[2, 5], [], false, 2⟩) := by
    rw [shown']
    cbv
  have part : e ∈ (Body.once e).expression.parts := by
    rw [shown]
    exact List.mem_cons_self
  have part' : e' ∈ (Body.once e').expression.parts := by
    rw [shown']
    exact List.mem_cons_self
  have ranged := Congruential.ranged (.ofSeed 64)
  have ranged' := Script.ranged (.ofList [2, 5] false)
  obtain ⟨_, _, seen, _⟩ :=
    plain_history_faithful parsed parsed' part part' {} {} ranged ranged' ran ran'
  exact ⟨_, _, e, e', _, _, _, _, parsed, parsed', rfl, rfl, ranged, ranged', ran, ran', by rfl,
    seen.mp (by rfl)⟩

end DiceNotation
