import DiceNotation.Document.Binary

/-!
Documents: the tree of values in which results are written down and read back.
-/
namespace DiceNotation

/-- The fields of an object stand in the order in which they are written. -/
inductive Document where
  | null
  | bool (value : Bool)
  | int (value : Int)
  | float (value : Binary)
  | text (value : String)
  | list (items : List Document)
  | object (fields : List (String × Document))
  deriving Repr

/-- The value of a field; the last one counts if the name is given twice. -/
def Document.field? (fields : List (String × Document)) (name : String) : Option Document :=
  (fields.reverse.find? fun (key, _) => key = name).map Prod.snd

end DiceNotation
