import EditingEngine.Language
import EditingEngine.Lexical.LineState

/-!
# Reading a line

A line is read from left to right. The reading says for each character whether it
is code or belongs to a string or comment, which characters are indentation brackets
of the code, and what is still open at the end of the line. Strings come before
comments and comments before brackets: a marker inside a string opens nothing, and
a quote inside a comment is no quote. Markers are taken whole, so the end of a
comment cannot overlap its start. An escape takes the meaning from the next
character of its line only.
-/
namespace EditingEngine

/-- How the next character of a line is read. -/
inductive Mode where
  /-- By what is open. -/
  | free
  /-- As the character after an escape. -/
  | escaped
  /-- As part of a block marker that has `left` more characters after this one. -/
  | marker (left : Nat)
  /-- As part of a line comment. -/
  | lineComment
  deriving DecidableEq, Repr

/-- The mode in front of the last `left` characters of a block marker. -/
def Mode.insideMarker : Nat → Mode
  | 0 => .free
  | left + 1 => .marker left

/-- Where the reading of a line stands between two characters. -/
structure Cursor where
  state : LineState
  mode : Mode
  deriving DecidableEq, Repr

/-- What one character was read as, and where the reading stands after it. -/
structure CharReading where
  kind : CharKind
  bracket : Option Side
  next : Cursor
  deriving DecidableEq, Repr

namespace CommentMarkers

/-- Whether a line comment starts here. -/
def startsLine (m : CommentMarkers) (text : Text) : Bool := m.line?.any (·.isPrefixOf text)

/-- The start marker, if a block comment starts here. -/
def blockStartAt? (m : CommentMarkers) (text : Text) : Option Text :=
  (m.block?.map (·.1)).filter (·.isPrefixOf text)

/-- The end marker, if a block comment ends here. -/
def blockEndAt? (m : CommentMarkers) (text : Text) : Option Text :=
  (m.block?.map (·.2)).filter (·.isPrefixOf text)

end CommentMarkers

/-- The reading of a line, or of the rest of one. -/
structure LineReading where
  /-- The state in which the next line is read. -/
  exitState : LineState
  /-- The opening brackets less the closing ones. -/
  depthChange : Int
  /-- The kind of each character. -/
  kinds : List CharKind
  /-- The index and side of each bracket, from left to right. -/
  brackets : List (Nat × Side)
  deriving DecidableEq, Repr

namespace LineReading

/-- The reading of nothing. -/
def empty (state : LineState) : LineReading := ⟨state, 0, [], []⟩

/-- Put the character at an index in front of the reading of what follows it. -/
def cons (index : Nat) (r : CharReading) (rest : LineReading) : LineReading where
  exitState := rest.exitState
  depthChange := (r.bracket.map Side.depthChange).getD 0 + rest.depthChange
  kinds := r.kind :: rest.kinds
  brackets := (r.bracket.map (index, ·)).toList ++ rest.brackets

/-- The kind of the character at an index, if the line has one there. -/
def kindAt? (r : LineReading) (index : Nat) : Option CharKind := r.kinds[index]?

/-- The number of brackets of one side at smaller indices. -/
def bracketsBefore (r : LineReading) (side : Side) (index : Nat) : Nat :=
  r.brackets.countP fun b => b.1 < index && b.2 == side

end LineReading

namespace Language

/-- The part that a character plays if it is an indentation bracket. A character that
both opens and closes counts as an opening bracket. -/
def side? (lang : Language) (c : Char) : Option Side :=
  if lang.isOpener c then some .opening
  else if lang.isCloser c then some .closing
  else none

/-- Read a character inside a string. -/
def readInString (lang : Language) (s : LineState) (quote c : Char) : CharReading :=
  if lang.escape = some c then ⟨.string, none, ⟨s, .escaped⟩⟩
  else if c = quote then ⟨.string, none, ⟨{ s with openQuote := none }, .free⟩⟩
  else ⟨.string, none, ⟨s, .free⟩⟩

/-- Read the first character of `text` inside a block comment. -/
def readInComment (lang : Language) (s : LineState) (text : Text) : CharReading :=
  match lang.comments.blockEndAt? text with
  | some m =>
    ⟨.blockComment, none, ⟨{ s with inComment := false }, .insideMarker (m.length - 1)⟩⟩
  | none => ⟨.blockComment, none, ⟨s, .free⟩⟩

/-- Read a character of code, the first of `text`. -/
def readInCode (lang : Language) (s : LineState) (c : Char) (text : Text) : CharReading :=
  if lang.comments.startsLine text then ⟨.lineComment, none, ⟨s, .lineComment⟩⟩
  else match lang.comments.blockStartAt? text with
    | some m =>
      ⟨.blockComment, none, ⟨{ s with inComment := true }, .insideMarker (m.length - 1)⟩⟩
    | none =>
      if lang.isQuote c then ⟨.string, none, ⟨{ s with openQuote := some c }, .free⟩⟩
      else ⟨.code, lang.side? c, ⟨s, .free⟩⟩

/-- Read a character, knowing what follows it on its line. -/
def readChar (lang : Language) (cursor : Cursor) (c : Char) (rest : Text) : CharReading :=
  match cursor.mode with
  | .lineComment => ⟨.lineComment, none, cursor⟩
  | .marker left => ⟨.blockComment, none, ⟨cursor.state, .insideMarker left⟩⟩
  | .escaped => ⟨.string, none, ⟨cursor.state, .free⟩⟩
  | .free =>
    match cursor.state.openQuote with
    | some quote => lang.readInString cursor.state quote c
    | none =>
      if cursor.state.inComment then lang.readInComment cursor.state (c :: rest)
      else lang.readInCode cursor.state c (c :: rest)

/-- Read what is left of a line, whose first character has the given index. -/
def readFrom (lang : Language) (cursor : Cursor) (index : Nat) : Text → LineReading
  | [] => .empty cursor.state
  | c :: rest =>
    let r := lang.readChar cursor c rest
    (lang.readFrom r.next (index + 1) rest).cons index r

/-- Read a line that is entered in a state. -/
def readLine (lang : Language) (state : LineState) (line : Text) : LineReading :=
  lang.readFrom ⟨state, .free⟩ 0 line

/-- The state after some lines, the first of which is entered in the given state. -/
def stateAfter (lang : Language) (state : LineState) (lines : List Text) : LineState :=
  lines.foldl (fun s line => (lang.readLine s line).exitState) state

@[simp] theorem readFrom_nil (lang : Language) (cursor : Cursor) (index : Nat) :
    lang.readFrom cursor index [] = .empty cursor.state := rfl

@[simp] theorem readFrom_cons (lang : Language) (cursor : Cursor) (index : Nat) (c : Char)
    (rest : Text) :
    lang.readFrom cursor index (c :: rest) =
      (lang.readFrom (lang.readChar cursor c rest).next (index + 1) rest).cons index
        (lang.readChar cursor c rest) := rfl

@[simp] theorem length_kinds_readFrom (lang : Language) (cursor : Cursor) (index : Nat)
    (line : Text) : (lang.readFrom cursor index line).kinds.length = line.length := by
  induction line generalizing cursor index with
  | nil => rfl
  | cons c rest ih => simp [LineReading.cons, ih]

@[simp] theorem length_kinds_readLine (lang : Language) (state : LineState) (line : Text) :
    (lang.readLine state line).kinds.length = line.length := by
  simp [readLine]

end Language
end EditingEngine
