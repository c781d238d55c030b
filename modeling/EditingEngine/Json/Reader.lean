import EditingEngine.Text.Lines

/-!
# Reading JSON from left to right

A reader takes a value off the front of a text and returns the rest, or says what
is wrong at the first place where the text cannot go on. There are three kinds of
faults: the text ends too early, it is not JSON, or it is JSON of another shape
than the reader asks for.
-/
namespace EditingEngine.Json

/-- The first thing wrong with a text. -/
inductive Fault where
  /-- The text ends too early. -/
  | truncated
  /-- The text is not JSON. -/
  | malformed
  /-- The text is JSON so far, but not of the kind that is read. -/
  | mismatch
  deriving DecidableEq, Repr

/-- A reader returns a value and the text after it. -/
abbrev Reader (α : Type) := Text → Except Fault (α × Text)

/-- The characters that may stand between the parts of a JSON text. -/
def isSpace (c : Char) : Bool := c == ' ' || c == '\n' || c == '\t' || c == '\r'

def skipSpace (text : Text) : Text := text.dropWhile isSpace

/-- Take a word off the front of a text. -/
def readWord : Text → Text → Except Fault Text
  | [], text => .ok text
  | _ :: _, [] => .error .truncated
  | w :: word, c :: rest => if c = w then readWord word rest else .error .malformed

/-- Take the colon behind the name of a member off the front of a text. -/
def readColon (text : Text) : Except Fault Text :=
  match skipSpace text with
  | [] => .error .truncated
  | ':' :: rest => .ok rest
  | _ :: _ => .error .malformed

/-- Nothing but space may follow a complete text. -/
def readEnd (text : Text) : Except Fault Unit :=
  if skipSpace text = [] then .ok () else .error .malformed

/-- Read a whole text. -/
def Reader.readAll {α : Type} (reader : Reader α) (text : Text) : Except Fault α := do
  let (value, rest) ← reader text
  readEnd rest
  return value

@[simp] theorem readWord_append (word rest : Text) : readWord word (word ++ rest) = .ok rest := by
  induction word with
  | nil => rfl
  | cons w word ih => simp [readWord, ih]

end EditingEngine.Json
