import DiceNotation.Document.Basic

/-!
Checked reading: a reader either has a value or lists every problem of its document, each with its
place. Readers of several fields are joined so that the problems of all of them are listed.
-/
namespace DiceNotation

inductive Step where
  | field (name : String)
  | index (n : Nat)
  deriving DecidableEq, Repr

inductive ProblemKind where
  | missing | tagMissing | tagInvalid | objectExpected | modelExpected | listExpected
  | textExpected | intExpected | intUnreadable | intTooLong | intFraction
  | boolExpected | boolUnreadable | decimalExpected | decimalUnreadable | notFinite
  | noMember | noLiteral
  deriving DecidableEq, Repr

def ProblemKind.name : ProblemKind → String
  | missing => "missing"
  | tagMissing => "union_tag_not_found"
  | tagInvalid => "union_tag_invalid"
  | objectExpected => "dict_type"
  | modelExpected => "model_type"
  | listExpected => "list_type"
  | textExpected => "string_type"
  | intExpected => "int_type"
  | intUnreadable => "int_parsing"
  | intTooLong => "int_parsing_size"
  | intFraction => "int_from_float"
  | boolExpected => "bool_type"
  | boolUnreadable => "bool_parsing"
  | decimalExpected => "decimal_type"
  | decimalUnreadable => "decimal_parsing"
  | notFinite => "finite_number"
  | noMember => "enum"
  | noLiteral => "literal_error"

structure Problem where
  place : List Step
  kind : ProblemKind
  deriving DecidableEq, Repr

inductive Checked (α : Type) where
  | ok (value : α)
  | problems (list : List Problem)
  deriving DecidableEq, Repr

namespace Checked

variable {α β : Type}

def fail (kind : ProblemKind) : Checked α := problems [⟨[], kind⟩]

protected def map (f : α → β) : Checked α → Checked β
  | ok a => ok (f a)
  | problems list => problems list

protected def seq (f : Checked (α → β)) (a : Checked α) : Checked β :=
  match f, a with
  | ok f, ok a => ok (f a)
  | ok _, problems q => problems q
  | problems p, ok _ => problems p
  | problems p, problems q => problems (p ++ q)

instance : Applicative Checked where
  pure := ok
  map := Checked.map
  seq f a := f.seq (a ())

def within (step : Step) : Checked α → Checked α
  | ok a => ok a
  | problems list => problems (list.map fun p => { p with place := step :: p.place })

end Checked

abbrev Fields := List (String × Document)

def requiredField {α : Type} (fields : Fields) (name : String) (read : Document → Checked α) :
    Checked α :=
  .within (.field name) (match Document.field? fields name with
    | none => .fail .missing
    | some d => read d)

def optionalField {α : Type} (fields : Fields) (name : String) (default : α)
    (read : Document → Checked α) : Checked α :=
  match Document.field? fields name with
  | none => .ok default
  | some d => .within (.field name) (read d)

def readItems {α : Type} (read : Document → Checked α) : Nat → List Document → Checked (List α)
  | _, [] => .ok []
  | n, d :: rest =>
      ((Checked.within (.index n) (read d)).map List.cons).seq (readItems read (n + 1) rest)

def readList {α : Type} (read : Document → Checked α) : Document → Checked (List α)
  | .list items => readItems read 0 items
  | _ => .fail .listExpected

def readNullable {α : Type} (read : Document → Checked α) : Document → Checked (Option α)
  | .null => .ok none
  | d => (read d).map some

def readObject {α : Type} (read : Fields → Checked α) : Document → Checked α
  | .object fields => read fields
  | _ => .fail .modelExpected

/-- An object whose field `kind` tells how it is read. The tag is a step on the way to its
fields. -/
def readTagged {α : Type} (reader? : String → Option (Fields → Checked α)) :
    Document → Checked α
  | .object fields =>
      match Document.field? fields "kind" with
      | none => .fail .tagMissing
      | some (.text tag) =>
          match reader? tag with
          | some read => .within (.field tag) (read fields)
          | none => .fail .tagInvalid
      | some _ => .fail .tagInvalid
  | _ => .fail .objectExpected

end DiceNotation
