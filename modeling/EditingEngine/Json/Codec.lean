import EditingEngine.Json.Skip

/-!
# Reading and writing values

A codec reads the values of a type from JSON and writes them as JSON. A text of the
wrong kind is refused where its value ends if it is a scalar, and where it begins
if it is a list or an object, whose inside is not looked at. What is written has no
space between its parts.
-/
namespace EditingEngine.Json

structure Codec (α : Type) where
  read : Reader α
  write : α → Text

/-- What is wrong with a text whose value has the wrong kind, given how the value reads. -/
def faultOf {α : Type} : Except Fault α → Fault
  | .error f => f
  | .ok _ => .mismatch

/-- What is wrong with a text that starts with a value of the wrong kind. -/
def misfit (text : Text) : Fault :=
  match skipSpace text with
  | [] => .truncated
  | '[' :: _ => .mismatch
  | '{' :: _ => .mismatch
  | '"' :: rest => faultOf (readChars rest)
  | 'n' :: rest => faultOf (readWord ['u', 'l', 'l'] rest)
  | 't' :: rest => faultOf (readWord ['r', 'u', 'e'] rest)
  | 'f' :: rest => faultOf (readWord ['a', 'l', 's', 'e'] rest)
  | c :: rest => if c == '-' || c.isDigit then faultOf (readNumber (c :: rest)) else .malformed

/-- Read null. -/
def readNull (text : Text) : Except Fault Text :=
  match skipSpace text with
  | 'n' :: rest => readWord ['u', 'l', 'l'] rest
  | _ => .error (misfit text)

def readCount (text : Text) : Except Fault (Nat × Text) :=
  match skipSpace text with
  | c :: rest =>
    if c.isDigit then do
      let (x, rest) ← readNumber (c :: rest)
      match x.count? with
      | some n => .ok (n, rest)
      | none => .error .mismatch
    else .error (misfit text)
  | [] => .error .truncated

def readText (text : Text) : Except Fault (Text × Text) :=
  match skipSpace text with
  | '"' :: rest => readChars rest
  | _ => .error (misfit text)

/-- Read a string that names something. Any other text is malformed. -/
def readName (text : Text) : Except Fault (Text × Text) :=
  match skipSpace text with
  | [] => .error .truncated
  | '"' :: rest => readChars rest
  | _ :: _ => .error .malformed

/-- Read a string of exactly one character. -/
def readChar (text : Text) : Except Fault (Char × Text) := do
  match ← readText text with
  | ([c], rest) => .ok (c, rest)
  | _ => .error .mismatch

def readFlag (text : Text) : Except Fault (Bool × Text) :=
  match skipSpace text with
  | 't' :: rest => do return (true, ← readWord ['r', 'u', 'e'] rest)
  | 'f' :: rest => do return (false, ← readWord ['a', 'l', 's', 'e'] rest)
  | _ => .error (misfit text)

/-- Read one or more items and the bracket behind them. The number bounds the items. -/
def readItems {α : Type} (item : Reader α) : Nat → Text → Except Fault (List α × Text)
  | 0, _ => .error .truncated
  | bound + 1, text => do
    let (x, rest) ← item text
    match skipSpace rest with
    | [] => .error .truncated
    | ']' :: rest => return ([x], rest)
    | ',' :: rest => do
      let (xs, rest) ← readItems item bound rest
      return (x :: xs, rest)
    | _ :: _ => .error .malformed

def readList {α : Type} (item : Reader α) (text : Text) : Except Fault (List α × Text) :=
  match skipSpace text with
  | '[' :: rest =>
    match skipSpace rest with
    | [] => .error .truncated
    | ']' :: rest => .ok ([], rest)
    | rest => readItems item rest.length rest
  | _ => .error (misfit text)

/-- Texts with commas between them. -/
def commaSeparated (texts : List Text) : Text := List.intercalate [','] texts

namespace Codec

/-- Natural numbers below two to the power 64. -/
def count : Codec Nat := ⟨readCount, writeCount⟩

/-- Texts, as strings. -/
def text : Codec Text := ⟨readText, writeQuoted⟩

/-- Characters, as strings of one character. -/
def char : Codec Char := ⟨readChar, fun c => writeQuoted [c]⟩

/-- Truth values. -/
def flag : Codec Bool where
  read := readFlag
  write
    | true => ['t', 'r', 'u', 'e']
    | false => ['f', 'a', 'l', 's', 'e']

/-- Values that may be null. -/
def option {α : Type} (codec : Codec α) : Codec (Option α) where
  read text :=
    match skipSpace text with
    | 'n' :: rest => do return (none, ← readWord ['u', 'l', 'l'] rest)
    | rest => do
      let (value, rest) ← codec.read rest
      return (some value, rest)
  write
    | none => ['n', 'u', 'l', 'l']
    | some value => codec.write value

/-- Lists. -/
def list {α : Type} (codec : Codec α) : Codec (List α) where
  read := readList codec.read
  write values := '[' :: (commaSeparated (values.map codec.write) ++ [']'])

/-- Values with names. Such a value is written as its name, and may also be read from an object
that has this name alone, with null. -/
def named {α : Type} (values : List α) (name : α → Text) : Codec α where
  read text := do
    let find (key : Text) : Except Fault α :=
      match values.find? (name · == key) with
      | some value => .ok value
      | none => .error .mismatch
    match skipSpace text with
    | [] => .error .truncated
    | '"' :: rest => do
      let (key, rest) ← readChars rest
      return (← find key, rest)
    | '{' :: rest => do
      let (key, rest) ← readName rest
      let value ← find key
      match skipSpace (← readNull (← readColon rest)) with
      | [] => .error .truncated
      | '}' :: rest => return (value, rest)
      | _ :: _ => .error .malformed
    | _ :: _ => .error .malformed
  write value := writeQuoted (name value)

/-- Read a complete text. -/
def parse {α : Type} (codec : Codec α) (text : Text) : Except Fault α :=
  Reader.readAll codec.read text

end Codec
end EditingEngine.Json
