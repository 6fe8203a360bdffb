import DiceNotation.Text.Blank

/-!
Files of variables: lines such as `NAME=value`, with comments, quotes and an optional `export`. A
line that cannot be read is passed over. A value may refer to variables as `${NAME}` or, with a
default, as `${NAME:-value}`.
-/
namespace DiceNotation.Settings

open Text

def unifyLineEnds : List Char → List Char
  | '\r' :: '\n' :: rest => '\n' :: unifyLineEnds rest
  | '\r' :: rest => '\n' :: unifyLineEnds rest
  | c :: rest => c :: unifyLineEnds rest
  | [] => []

def dropOrderMark : List Char → List Char
  | '\ufeff' :: rest => rest
  | s => s

def isLineSpace (c : Char) : Bool := isSpace c && c != '\n'

def endOfLine? (s : List Char) : Option (List Char) :=
  match s.dropWhile isLineSpace with
  | [] => some []
  | '\n' :: rest => some rest
  | _ => none

def dropComment (s : List Char) : List Char :=
  match s.dropWhile isLineSpace with
  | '#' :: rest => rest.dropWhile (· != '\n')
  | _ => s

/-- A quoted text up to its closing quote. A backslash belongs to the character after it, which is
then no closing quote. -/
def takeQuoted? (quote : Char) : List Char → Option (List Char × List Char)
  | [] => none
  | '\\' :: c :: rest =>
      (takeQuoted? quote rest).map fun (inner, left) => ('\\' :: c :: inner, left)
  | c :: rest =>
      if c = quote then some ([], rest)
      else (takeQuoted? quote rest).map fun (inner, left) => (c :: inner, left)

def unescape (meaning? : Char → Option Char) : List Char → List Char
  | '\\' :: c :: rest =>
      match meaning? c with
      | some d => d :: unescape meaning? rest
      | none => '\\' :: unescape meaning? (c :: rest)
  | c :: rest => c :: unescape meaning? rest
  | [] => []

def singleQuoteEscape? (c : Char) : Option Char :=
  if c = '\\' ∨ c = '\x27' then some c else none

def doubleQuoteEscape? (c : Char) : Option Char :=
  match c with
  | 'a' => some '\x07'
  | 'b' => some '\x08'
  | 'f' => some '\x0c'
  | 'n' => some '\n'
  | 'r' => some '\r'
  | 't' => some '\t'
  | 'v' => some '\x0b'
  | '"' => some '"'
  | c => singleQuoteEscape? c

def cutComment : List Char → List Char
  | [] => []
  | c :: rest =>
      if isSpace c ∧ (rest.dropWhile isSpace).head? = some '#' then []
      else c :: cutComment rest

/-- The value behind the equals sign, with what follows it. White space around a value without
quotes is not part of it; a comment behind the white space leaves it empty. -/
def takeValue? (s : List Char) : Option (List Char × List Char) :=
  match s.dropWhile isLineSpace with
  | '\x27' :: rest =>
      (takeQuoted? '\x27' rest).map fun (value, left) => (unescape singleQuoteEscape? value, left)
  | '"' :: rest =>
      (takeQuoted? '"' rest).map fun (value, left) => (unescape doubleQuoteEscape? value, left)
  | _ => some (trim (cutComment (s.takeWhile (· != '\n'))), s.dropWhile (· != '\n'))

def dropExport (s : List Char) : List Char :=
  match s with
  | 'e' :: 'x' :: 'p' :: 'o' :: 'r' :: 't' :: c :: rest =>
      if isLineSpace c then rest.dropWhile isLineSpace else s
  | s => s

def takeName? (s : List Char) : Option (Option (List Char) × List Char) :=
  match s with
  | '#' :: _ => some (none, s)
  | '\x27' :: rest =>
      let name := rest.takeWhile (· != '\x27')
      match rest.dropWhile (· != '\x27') with
      | _ :: left => if name = [] then none else some (some name, left)
      | [] => none
  | s =>
      let inName (c : Char) : Bool := c != '=' && c != '#' && !isSpace c
      let name := s.takeWhile inName
      if name = [] then none else some (some name, s.dropWhile inName)

abbrev Binding := String × Option String

def orStop {α : Type} (s : List Char) : Option α → Except (List Char) α
  | some a => .ok a
  | none => .error s

/-- Reads one line, or more if a quoted value has more. A failure tells where reading stopped. -/
def takeBinding (s : List Char) : Except (List Char) (Option Binding × List Char) := do
  let s := dropExport s
  let (name, rest) ← orStop s (takeName? s)
  let rest := rest.dropWhile isLineSpace
  let (value, rest) ← match rest with
    | '=' :: behind =>
        (orStop behind (takeValue? behind)).map fun (value, left) => (some value, left)
    | rest => .ok (none, rest)
  let rest := dropComment rest
  let left ← orStop rest (endOfLine? rest)
  return (name.map fun name => (String.ofList name, value.map String.ofList), left)

/-- Reads at most a number of lines. What is left of a line that cannot be read is passed over. -/
def takeBindings : Nat → List Char → List Binding
  | 0, _ => []
  | n + 1, s =>
      match s.dropWhile isSpace with
      | [] => []
      | s =>
          match takeBinding s with
          | .ok (some binding, left) => binding :: takeBindings n left
          | .ok (none, left) => takeBindings n left
          | .error stopped => takeBindings n ((stopped.dropWhile (· != '\n')).drop 1)

def readBindings (file : String) : List Binding :=
  let s := unifyLineEnds (dropOrderMark file.toList)
  takeBindings (s.length + 1) s

def setVariable (bindings : List Binding) (name : String) (value : Option String) :
    List Binding :=
  if bindings.any (·.1 = name) then
    bindings.map fun b => if b.1 = name then (name, value) else b
  else bindings ++ [(name, value)]

def takeReference? (s : List Char) : Option (List Char × Option (List Char) × List Char) :=
  let inName (c : Char) : Bool := c != '\x7d' && c != ':'
  let name := s.takeWhile inName
  match s.dropWhile inName with
  | '\x7d' :: left => some (name, none, left)
  | ':' :: '-' :: rest =>
      match rest.dropWhile (· != '\x7d') with
      | _ :: left => some (name, some (rest.takeWhile (· != '\x7d')), left)
      | [] => none
  | _ => none

def resolve (lookUp : String → Option (List Char)) : Nat → List Char → List Char
  | 0, s => s
  | _, [] => []
  | n + 1, '$' :: '\x7b' :: rest =>
      match takeReference? rest with
      | some (name, default, left) =>
          ((lookUp (String.ofList name)).getD (default.getD [])) ++ resolve lookUp n left
      | none => '$' :: resolve lookUp n ('\x7b' :: rest)
  | n + 1, c :: rest => c :: resolve lookUp n rest

/-- What a name stands for: the last value given before, then that of the environment. A variable
without a value stands for nothing. -/
def lookUpVariable (bindings : List Binding) (environment : List (String × String))
    (name : String) : Option (List Char) :=
  match bindings.find? (·.1 = name) with
  | some (_, value) => some (value.elim [] String.toList)
  | none => (environment.reverse.find? (·.1 = name)).map (·.2.toList)

def variablesOf (environment : List (String × String)) (file : String) : List Binding :=
  (readBindings file).foldl (fun bindings (name, value) =>
    let resolved := value.map fun v =>
      String.ofList (resolve (lookUpVariable bindings environment) v.length v.toList)
    setVariable bindings name resolved) []

end DiceNotation.Settings
