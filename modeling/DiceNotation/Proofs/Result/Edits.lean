import DiceNotation.Result.OfDocument
import DiceNotation.Result.ToDocument

/-!
Documents of results that were edited on their way: fields that hold the values they have when they
are left out may be gone, and fields of names that an object does not have may have come in. What is
read from the fields that count stays the same.
-/
namespace DiceNotation

/-- Where an object stands. The members of a repeated result are single results, so they may leave
out their kind. -/
inductive Standing where
  | apart | member
  deriving DecidableEq, Repr

def Standing.defaults (s : Standing) : Fields :=
  let common := [("origin", .text "initial"), ("dropped", .bool false), ("rerolled", .bool false),
    ("exploded", .bool false), ("critic", .text "none"), ("reason", .null),
    ("combined_total", .null), ("sorted", .bool false)]
  match s with
  | apart => common
  | member => ("kind", .text "single") :: common

def Standing.within (name : String) : Standing := if name = "rolls" then member else apart

mutual

inductive Edited : Standing → Document → Document → Prop where
  | same (s : Standing) (d : Document) : Edited s d d
  | list {s : Standing} {items items' : List Document} (h : ItemsEdited s items items') :
      Edited s (.list items) (.list items')
  | object {s : Standing} {fields fields' : Fields}
      (h : FieldsEdited s (fields.map Prod.fst) fields fields') :
      Edited s (.object fields) (.object fields')

inductive ItemsEdited : Standing → List Document → List Document → Prop where
  | nil (s : Standing) : ItemsEdited s [] []
  | cons {s : Standing} {d d' : Document} {items items' : List Document} (first : Edited s d d')
      (rest : ItemsEdited s items items') : ItemsEdited s (d :: items) (d' :: items')

inductive FieldsEdited : Standing → List String → Fields → Fields → Prop where
  | nil (s : Standing) (known : List String) : FieldsEdited s known [] []
  | kept {s : Standing} {known : List String} {fields fields' : Fields} (name : String)
      {d d' : Document} (value : Edited (.within name) d d')
      (rest : FieldsEdited s known fields fields') :
      FieldsEdited s known ((name, d) :: fields) ((name, d') :: fields')
  | leftOut {s : Standing} {known : List String} {fields fields' : Fields} (name : String)
      {d : Document} (default : (name, d) ∈ s.defaults)
      (rest : FieldsEdited s known fields fields') :
      FieldsEdited s known ((name, d) :: fields) fields'
  | added {s : Standing} {known : List String} {fields fields' : Fields} (name : String)
      (unknown : name ∉ known) (d : Document) (rest : FieldsEdited s known fields fields') :
      FieldsEdited s known fields ((name, d) :: fields')

end

theorem ItemsEdited.refl (s : Standing) (items : List Document) : ItemsEdited s items items := by
  induction items with
  | nil => exact .nil s
  | cons d items ih => exact .cons (.same s d) ih

theorem FieldsEdited.refl (s : Standing) (known : List String) (fields : Fields) :
    FieldsEdited s known fields fields := by
  induction fields with
  | nil => exact .nil s known
  | cons field fields ih => exact .kept field.1 (.same _ field.2) ih

theorem field?_cons (key : String) (d : Document) (fields : Fields) (name : String) :
    Document.field? ((key, d) :: fields) name =
      (Document.field? fields name).or (if key = name then some d else none) := by
  have opened (fields : Fields) : Document.field? fields name =
      (fields.reverse.find? fun field => decide (field.1 = name)).map Prod.snd := rfl
  rw [opened, opened, List.reverse_cons, List.find?_append]
  cases fields.reverse.find? fun field => decide (field.1 = name) with
  | some field => rfl
  | none => by_cases same : key = name <;> simp [same]

variable {s : Standing} {known : List String} {name : String}

theorem field?_of_ne {key : String} (other : key ≠ name) (d : Document) (fields : Fields) :
    Document.field? ((key, d) :: fields) name = Document.field? fields name := by
  rw [field?_cons, if_neg other, Option.or_none]

theorem FieldsEdited.field?_eq_none (inside : name ∈ known) {fields fields' : Fields} :
    FieldsEdited s known fields fields' → name ∉ fields.map Prod.fst →
      Document.field? fields' name = none
  | .nil _ _, _ => rfl
  | .kept key _ rest, absent => by
    rw [List.map_cons, List.mem_cons, not_or] at absent
    rw [field?_of_ne (Ne.symm absent.1), rest.field?_eq_none inside absent.2]
  | .leftOut key _ rest, absent => by
    rw [List.map_cons, List.mem_cons, not_or] at absent
    exact rest.field?_eq_none inside absent.2
  | .added key unknown d rest, absent => by
    have other : key ≠ name := by
      intro same
      rw [same] at unknown
      exact unknown inside
    rw [field?_of_ne other, rest.field?_eq_none inside absent]

/-- A field that was there is there as it was edited, or is gone with its default. -/
def FieldsKept (s : Standing) (fields fields' : Fields) : Prop :=
  ∀ name d, (name, d) ∈ fields →
    (∃ d', Document.field? fields' name = some d' ∧ Edited (.within name) d d') ∨
      (Document.field? fields' name = none ∧ (name, d) ∈ s.defaults)

theorem FieldsEdited.fieldsKept {fields fields' : Fields} :
    FieldsEdited s known fields fields' → (∀ field ∈ fields, field.1 ∈ known) →
      (fields.map Prod.fst).Nodup → FieldsKept s fields fields'
  | .nil _ _, _, _ => nofun
  | .kept key value rest, inside, distinct => by
    intro name d member
    rw [List.forall_mem_cons] at inside
    rw [List.map_cons, List.nodup_cons] at distinct
    rcases List.mem_cons.mp member with first | later
    · obtain ⟨rfl, rfl⟩ := Prod.mk.inj first
      rw [field?_cons, rest.field?_eq_none inside.1 distinct.1, if_pos rfl]
      exact .inl ⟨_, rfl, value⟩
    · have other : key ≠ name := by
        intro same
        rw [same] at distinct
        exact distinct.1 (List.mem_map.mpr ⟨_, later, rfl⟩)
      rw [field?_of_ne other]
      exact rest.fieldsKept inside.2 distinct.2 name d later
  | .leftOut key default rest, inside, distinct => by
    intro name d member
    rw [List.forall_mem_cons] at inside
    rw [List.map_cons, List.nodup_cons] at distinct
    rcases List.mem_cons.mp member with first | later
    · obtain ⟨rfl, rfl⟩ := Prod.mk.inj first
      exact .inr ⟨rest.field?_eq_none inside.1 distinct.1, default⟩
    · exact rest.fieldsKept inside.2 distinct.2 name d later
  | .added key unknown extra rest, inside, distinct => by
    intro name d member
    have other : key ≠ name := by
      intro same
      rw [same] at unknown
      exact unknown (inside _ member)
    rw [field?_of_ne other]
    exact rest.fieldsKept inside distinct name d member

theorem Edited.fields {fields : Fields} {d : Document} (h : Edited s (.object fields) d)
    (distinct : (fields.map Prod.fst).Nodup) :
    ∃ fields', d = .object fields' ∧ FieldsKept s fields fields' := by
  have known : ∀ field ∈ fields, field.1 ∈ fields.map Prod.fst := by
    intro field member
    exact List.mem_map_of_mem member
  cases h with
  | same => exact ⟨_, rfl, (FieldsEdited.refl s _ fields).fieldsKept known distinct⟩
  | object edited => exact ⟨_, rfl, edited.fieldsKept known distinct⟩

theorem Edited.items {items : List Document} {d : Document} (h : Edited s (.list items) d) :
    ∃ items', d = .list items' ∧ ItemsEdited s items items' := by
  cases h with
  | same => exact ⟨_, rfl, .refl s items⟩
  | list edited => exact ⟨_, rfl, edited⟩

def ReadsAs {α : Type} (s : Standing) (read : Document → Checked α) (d : Document) (a : α) : Prop :=
  ∀ d', Edited s d d' → read d' = .ok a

variable {α : Type} {read : Document → Checked α} {fields fields' : Fields} {d : Document} {a : α}

theorem ReadsAs.unedited (h : ReadsAs s read d a) : read d = .ok a := h d (.same s d)

theorem readsAs_of_flat (flat : ∀ d', Edited s d d' → d' = d) (h : read d = .ok a) :
    ReadsAs s read d a := by
  intro d' edited
  rwa [flat d' edited]

theorem readsAs_list {items : List α} {write : α → Document}
    (each : ∀ x ∈ items, ReadsAs s read (write x) x) :
    ReadsAs s (readList read) (.list (items.map write)) items := by
  have reads (n : Nat) {documents : List Document}
      (edited : ItemsEdited s (items.map write) documents) :
      readItems read n documents = .ok items := by
    induction items generalizing n documents with
    | nil =>
      cases edited
      rfl
    | cons x items ih =>
      rw [List.forall_mem_cons] at each
      cases edited with
      | cons first rest =>
        rw [readItems, each.1 _ first, ih each.2 (n + 1) rest]
        rfl
  intro d' edited
  obtain ⟨documents, rfl, each⟩ := edited.items
  exact reads 0 each

theorem readsAs_nullable {write : α → Document} {value : Option α}
    (refuses : ∀ a, read .null ≠ .ok a) (each : ∀ x ∈ value, ReadsAs s read (write x) x) :
    ReadsAs s (readNullable read) (Document.orNull write value) value := by
  intro d' edited
  cases value with
  | none =>
    cases edited
    rfl
  | some x =>
    have found := each x rfl d' edited
    cases d' with
    | null => exact absurd found (refuses x)
    | _ => exact congrArg (Checked.map some) found

theorem readsAs_object {read : Fields → Checked α} (distinct : (fields.map Prod.fst).Nodup)
    (h : ∀ fields', FieldsKept s fields fields' → read fields' = .ok a) :
    ReadsAs s (readObject read) (.object fields) a := by
  intro d' edited
  obtain ⟨fields', rfl, kept⟩ := edited.fields distinct
  exact h fields' kept

theorem FieldsKept.required (kept : FieldsKept s fields fields') (name : String)
    (member : (name, d) ∈ fields) (needed : name ∉ s.defaults.map Prod.fst)
    (h : ReadsAs (.within name) read d a) : requiredField fields' name read = .ok a := by
  rcases kept name d member with ⟨d', found, edited⟩ | ⟨_, default⟩
  · rw [requiredField, found]
    dsimp only
    rw [h d' edited]
    rfl
  · exact absurd (List.mem_map.mpr ⟨_, default, rfl⟩) needed

theorem FieldsKept.optional (kept : FieldsKept s fields fields') (name : String) {default : α}
    (member : (name, d) ∈ fields) (absent : (name, d) ∈ s.defaults → a = default)
    (h : ReadsAs (.within name) read d a) : optionalField fields' name default read = .ok a := by
  rcases kept name d member with ⟨d', found, edited⟩ | ⟨gone, held⟩
  · rw [optionalField, found]
    dsimp only
    rw [h d' edited]
    rfl
  · rw [optionalField, gone, absent held]

theorem readsAs_tagged {reader? : String → Option (Fields → Checked α)} (tag : String)
    {read : Fields → Checked α} (distinct : (fields.map Prod.fst).Nodup)
    (member : ("kind", .text tag) ∈ fields) (chosen : reader? tag = some read)
    (h : ∀ fields', FieldsKept .apart fields fields' → read fields' = .ok a) :
    ReadsAs .apart (readTagged reader?) (.object fields) a := by
  intro d' edited
  obtain ⟨fields', rfl, kept⟩ := edited.fields distinct
  rcases kept "kind" _ member with ⟨kind, found, same⟩ | ⟨_, default⟩
  · cases same
    simp only [readTagged, found, chosen, h fields' kept]
    rfl
  · have needed : "kind" ∉ Standing.apart.defaults.map Prod.fst := by decide
    exact absurd (List.mem_map.mpr ⟨_, default, rfl⟩) needed

end DiceNotation
