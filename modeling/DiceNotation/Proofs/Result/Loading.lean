import DiceNotation.Proofs.Decimal.Text
import DiceNotation.Proofs.Result.Edits

/-!
Loading undoes writing. A result is read back from its document with every field as it was, also
when defaults were left out of the document and unknown fields have come in.
-/
namespace DiceNotation

open Document

variable {s : Standing}

theorem readsAs_int (n : Int) : ReadsAs s readInt (.int n) n :=
  readsAs_of_flat (fun _ edited => by cases edited; rfl) rfl

theorem readsAs_bool (b : Bool) : ReadsAs s readBool (.bool b) b :=
  readsAs_of_flat (fun _ edited => by cases edited; rfl) rfl

theorem readsAs_text (text : String) : ReadsAs s readText (.text text) text :=
  readsAs_of_flat (fun _ edited => by cases edited; rfl) rfl

theorem readsAs_decimal {d : Decimal} (storable : d.Storable) :
    ReadsAs s readDecimal (ofDecimal d) d := by
  refine readsAs_of_flat (fun _ edited => by cases edited; rfl) ?_
  rw [ofDecimal, readDecimal, Decimal.text, String.toList_ofList,
    Decimal.readNumeric?_textChars storable]

theorem readsAs_member {α : Type} {name : α → String} {members : List α} {problem : ProblemKind}
    {a : α} (found : members.find? (fun b => name b = name a) = some a) :
    ReadsAs s (readMember name members problem) (.text (name a)) a := by
  refine readsAs_of_flat (fun _ edited => by cases edited; rfl) ?_
  rw [readMember, found]

theorem Die.readsAs (d : Die) : ReadsAs .apart readDie d.toDocument d := by
  have origin :
      ("origin", .text d.origin.name) ∈ Standing.apart.defaults → d.origin = .initial := by
    cases d.origin <;> simp [Standing.defaults, Origin.name]
  have extreme :
      ("critic", .text d.extreme.name) ∈ Standing.apart.defaults → d.extreme = .none := by
    cases d.extreme <;> simp [Standing.defaults, Extreme.name]
  refine readsAs_object (by simp) fun fields kept => ?_
  rw [kept.required "value" (by simp) (by decide) (readsAs_int d.value),
    kept.optional "origin" (by simp) origin (readsAs_member (by cases d.origin <;> rfl)),
    kept.optional "dropped" (by simp) (by simp [Standing.defaults]) (readsAs_bool d.dropped),
    kept.optional "rerolled" (by simp) (by simp [Standing.defaults]) (readsAs_bool d.rerolled),
    kept.optional "exploded" (by simp) (by simp [Standing.defaults]) (readsAs_bool d.exploded),
    kept.optional "critic" (by simp) extreme (readsAs_member (by cases d.extreme <;> rfl))]
  rfl

def HistoryItem.Storable : HistoryItem → Prop
  | value d => d.Storable
  | _ => True

def Total.Storable : Total → Prop
  | value d => d.Storable
  | success _ => True

structure SingleResult.Storable (r : SingleResult) : Prop where
  history : ∀ item ∈ r.history, item.Storable
  total : r.total.Storable

structure RepeatedResult.Storable (r : RepeatedResult) : Prop where
  rolls : ∀ roll ∈ r.rolls, roll.Storable
  sum : ∀ d ∈ r.sum, d.Storable

def Result.Storable : Result → Prop
  | single r => r.Storable
  | repeated r => r.Storable

theorem HistoryItem.readsAs {item : HistoryItem} (storable : item.Storable) :
    ReadsAs .apart readHistoryItem item.toDocument item := by
  cases item with
  | roll term =>
    refine readsAs_tagged "roll" (by simp) (by simp) rfl fun fields kept => ?_
    have sides : ReadsAs .apart (readNullable readInt) (orNull .int term.sides) term.sides :=
      readsAs_nullable nofun fun n _ => readsAs_int n
    have dice :
        ReadsAs .apart (readList readDie) (.list (term.dice.map Die.toDocument)) term.dice :=
      readsAs_list fun d _ => d.readsAs
    rw [readRolledTerm,
      kept.required "expression" (by simp) (by decide) (readsAs_text term.expression),
      kept.required "sides" (by simp) (by decide) sides,
      kept.required "dice" (by simp) (by decide) dice]
    rfl
  | value d =>
    refine readsAs_tagged "value" (by simp) (by simp) rfl fun fields kept => ?_
    rw [kept.required "value" (by simp) (by decide) (readsAs_decimal storable)]
    rfl
  | operator op =>
    refine readsAs_tagged "operator" (by simp) (by simp) rfl fun fields kept => ?_
    have symbol : ReadsAs .apart (readMember Operator.symbol [.add, .sub, .mul, .div] .noMember)
        (.text op.symbol) op := readsAs_member (by cases op <;> rfl)
    rw [kept.required "operator" (by simp) (by decide) symbol]
    rfl
  | paren p =>
    refine readsAs_tagged "paren" (by simp) (by simp) rfl fun fields kept => ?_
    have symbol : ReadsAs .apart (readMember Paren.symbol [.opening, .closing] .noLiteral)
        (.text p.symbol) p := readsAs_member (by cases p <;> rfl)
    rw [kept.required "symbol" (by simp) (by decide) symbol]
    rfl

theorem Total.readsAs {total : Total} (storable : total.Storable) :
    ReadsAs .apart readTotal total.toDocument total := by
  cases total with
  | value d =>
    refine readsAs_tagged "value" (by simp) (by simp) rfl fun fields kept => ?_
    rw [kept.required "value" (by simp) (by decide) (readsAs_decimal storable)]
    rfl
  | success n =>
    refine readsAs_tagged "success" (by simp) (by simp) rfl fun fields kept => ?_
    rw [kept.required "successes" (by simp) (by decide) (readsAs_int n)]
    rfl

theorem readSingle_kept {s : Standing} {r : SingleResult} (storable : r.Storable) {fields : Fields}
    (kept : FieldsKept s [("kind", .text "single"), ("expression", .text r.expression),
      ("history", .list (r.history.map HistoryItem.toDocument)), ("total", r.total.toDocument),
      ("reason", orNull .text r.reason)] fields) : readSingle fields = .ok r := by
  have kind : ReadsAs .apart readSingleKind (.text "single") () :=
    readsAs_of_flat (fun _ edited => by cases edited; rfl) rfl
  have history : ReadsAs .apart (readList readHistoryItem)
      (.list (r.history.map HistoryItem.toDocument)) r.history :=
    readsAs_list fun item member => HistoryItem.readsAs (storable.history item member)
  have reason : ReadsAs .apart (readNullable readText) (orNull .text r.reason) r.reason :=
    readsAs_nullable nofun fun text _ => readsAs_text text
  have noReason : ("reason", orNull .text r.reason) ∈ s.defaults → r.reason = none := by
    cases s <;> cases r.reason <;> simp [Standing.defaults, orNull]
  have needed {name : String} (h : name ∉ Standing.member.defaults.map Prod.fst) :
      name ∉ s.defaults.map Prod.fst := by
    cases s with
    | apart => exact fun inside => h (List.mem_cons_of_mem _ inside)
    | member => exact h
  rw [readSingle, kept.optional "kind" (by simp) (fun _ => rfl) kind,
    kept.required "expression" (by simp) (needed (by decide)) (readsAs_text r.expression),
    kept.required "history" (by simp) (needed (by decide)) history,
    kept.required "total" (by simp) (needed (by decide)) (Total.readsAs storable.total),
    kept.optional "reason" (by simp) noReason reason]
  rfl

theorem readRepeated_kept {r : RepeatedResult} (storable : r.Storable) {fields : Fields}
    (kept : FieldsKept .apart [("kind", .text "repeated"), ("expression", .text r.expression),
      ("rolls", .list (r.rolls.map SingleResult.toDocument)),
      ("combined_total", orNull ofDecimal r.sum), ("sorted", .bool r.sorted),
      ("reason", orNull .text r.reason)] fields) : readRepeated fields = .ok r := by
  have rolls : ReadsAs .member (readList (readObject readSingle))
      (.list (r.rolls.map SingleResult.toDocument)) r.rolls :=
    readsAs_list fun roll member => readsAs_object (by simp) fun fields keptRoll =>
      readSingle_kept (storable.rolls roll member) keptRoll
  have sum : ReadsAs .apart (readNullable readDecimal) (orNull ofDecimal r.sum) r.sum :=
    readsAs_nullable nofun fun d member => readsAs_decimal (storable.sum d member)
  have noSum : ("combined_total", orNull ofDecimal r.sum) ∈ Standing.apart.defaults →
      r.sum = none := by
    cases r.sum <;> simp [Standing.defaults, orNull, ofDecimal]
  have reason : ReadsAs .apart (readNullable readText) (orNull .text r.reason) r.reason :=
    readsAs_nullable nofun fun text _ => readsAs_text text
  have noReason : ("reason", orNull .text r.reason) ∈ Standing.apart.defaults →
      r.reason = none := by
    cases r.reason <;> simp [Standing.defaults, orNull]
  rw [readRepeated,
    kept.required "expression" (by simp) (by decide) (readsAs_text r.expression),
    kept.required "rolls" (by simp) (by decide) rolls,
    kept.optional "combined_total" (by simp) noSum sum,
    kept.optional "sorted" (by simp) (by simp [Standing.defaults]) (readsAs_bool r.sorted),
    kept.optional "reason" (by simp) noReason reason]
  rfl

/-- A result is loaded from its document, however that was edited, with every field as it was. -/
theorem Result.ofDocument_edited {r : Result} (storable : r.Storable) :
    Result.ofDocument r.toDocument = .ok r ∧
      ∀ document, Edited .apart r.toDocument document → Result.ofDocument document = .ok r := by
  have reads : ReadsAs .apart Result.ofDocument r.toDocument r := by
    cases r with
    | single r =>
      refine readsAs_tagged "single" (by simp) (by simp) rfl fun fields kept => ?_
      rw [readSingle_kept storable kept]
      rfl
    | repeated r =>
      refine readsAs_tagged "repeated" (by simp) (by simp) rfl fun fields kept => ?_
      rw [readRepeated_kept storable kept]
      rfl
  exact ⟨reads.unedited, reads⟩

theorem thinned_repetition_loaded :
    ∃ (r : Result) (document : Document),
      r = .repeated ⟨"(2d6K1 + 0) ^ 1", [⟨"2d6K1 + 0", [.roll ⟨"2d6K1", some 6,
        [{ value := 6, extreme := .highest }, { value := 2, dropped := true }]⟩, .operator .add,
        .value ⟨true, 0, 5⟩], .value ⟨false, 600, -2⟩, none⟩], none, false, some "loot"⟩ ∧
      document = .object [("version", .int 2), ("kind", .text "repeated"),
        ("expression", .text "(2d6K1 + 0) ^ 1"), ("rolls", .list [.object [
          ("expression", .text "2d6K1 + 0"), ("history", .list [
            .object [("kind", .text "roll"), ("expression", .text "2d6K1"), ("sides", .int 6),
              ("dice", .list [
                .object [("value", .int 6), ("critic", .text "max"), ("kind", .null)],
                .object [("value", .int 2), ("dropped", .bool true)]])],
            .object [("kind", .text "operator"), ("operator", .text "+")],
            .object [("kind", .text "value"), ("value", .text "-0E+5")]]),
          ("total", .object [("kind", .text "value"), ("value", .text "6.00")])]]),
        ("reason", .text "loot")] ∧
      r.Storable ∧ Edited .apart r.toDocument document ∧
      Result.ofDocument document = .ok r := by
  have zero : Decimal.Storable ⟨true, 0, 5⟩ := ⟨by decide, by decide⟩
  have six : Decimal.Storable ⟨false, 600, -2⟩ := ⟨by decide, by decide⟩
  refine ⟨_, _, rfl, rfl, ?storable, ?edited, (Result.ofDocument_edited ?storable).2 _ ?edited⟩
  case storable =>
    refine ⟨?_, nofun⟩
    intro roll member
    obtain rfl := List.mem_singleton.mp member
    refine ⟨?_, six⟩
    simp [HistoryItem.Storable, zero]
  case edited =>
    refine .object (.added "version" (by decide) _ (.kept "kind" (.same _ _)
      (.kept "expression" (.same _ _) (.kept "rolls" (.list (.cons ?_ (.nil _)))
        (.leftOut "combined_total" (by simp [Standing.defaults, orNull])
          (.leftOut "sorted" (by simp [Standing.defaults])
            (.kept "reason" (.same _ _) (.nil _ _))))))))
    refine .object (.leftOut "kind" (by simp [Standing.within, Standing.defaults])
      (.kept "expression" (.same _ _) (.kept "history"
        (.list (.cons ?_ (.cons (.same _ _) (.cons (.same _ _) (.nil _)))))
        (.kept "total" (.same _ _)
          (.leftOut "reason" (by simp [Standing.within, Standing.defaults, orNull])
            (.nil _ _))))))
    refine .object (.kept "kind" (.same _ _) (.kept "expression" (.same _ _)
      (.kept "sides" (.same _ _) (.kept "dice" (.list (.cons ?_ (.cons ?_ (.nil _))))
        (.nil _ _)))))
    · refine .object (.kept "value" (.same _ _)
        (.leftOut "origin" (by simp [Standing.within, Standing.defaults, Origin.name])
          (.leftOut "dropped" (by simp [Standing.within, Standing.defaults])
            (.leftOut "rerolled" (by simp [Standing.within, Standing.defaults])
              (.leftOut "exploded" (by simp [Standing.within, Standing.defaults])
                (.kept "critic" (.same _ _) (.added "kind" (by decide) _ (.nil _ _))))))))
    · refine .object (.kept "value" (.same _ _)
        (.leftOut "origin" (by simp [Standing.within, Standing.defaults, Origin.name])
          (.kept "dropped" (.same _ _)
            (.leftOut "rerolled" (by simp [Standing.within, Standing.defaults])
              (.leftOut "exploded" (by simp [Standing.within, Standing.defaults])
                (.leftOut "critic" (by simp [Standing.within, Standing.defaults, Extreme.name])
                  (.nil _ _)))))))

end DiceNotation
