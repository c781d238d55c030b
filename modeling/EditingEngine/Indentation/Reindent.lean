import EditingEngine.Lexical.LineReading
import EditingEngine.Text.Blank
import EditingEngine.Text.Places

/-!
# Re-indenting a text

Every line is trimmed and gets one tab for each bracket open in front of it. A line
that starts with a closing bracket of the code stands one level further out. Blank
lines become empty and change nothing, and a line entered inside a block comment
is kept as it is, since its author laid it out. The depth never falls below zero,
whatever brackets are missing. A caret keeps its place in the content of its line.
-/
namespace EditingEngine

/-- What a pass over the lines of a text knows in front of a line. -/
structure Pass where
  level : Nat
  state : LineState
  deriving DecidableEq, Repr

/-- How one line is written. -/
inductive LineLayout where
  /-- As an empty line. -/
  | blank
  /-- As it was. -/
  | verbatim (line : Text)
  /-- With `tabs` tabs in place of its `blanks` leading blanks. -/
  | indented (blanks tabs : Nat) (content : Text)
  deriving DecidableEq, Repr

namespace Pass

/-- In front of a text. -/
def start : Pass := ⟨0, .plain⟩

/-- Whether trimmed content starts with a closing bracket of the code. -/
def dedents (p : Pass) (lang : Language) (content : Text) : Bool :=
  p.state.isPlain && content.head?.any lang.isCloser

/-- The level that trimmed content stands at. -/
def levelOf (p : Pass) (lang : Language) (content : Text) : Nat :=
  if p.dedents lang content then p.level - 1 else p.level

/-- What is left to read of trimmed content once its level is known. -/
def unread (p : Pass) (lang : Language) (content : Text) : Text :=
  if p.dedents lang content then content.tail else content

def layout (p : Pass) (lang : Language) (line : Text) : LineLayout :=
  let content := line.trim
  if content = [] then .blank
  else if p.state.inComment then .verbatim line
  else .indented line.leadingBlanks (p.levelOf lang content) content

/-- Behind a line. -/
def next (p : Pass) (lang : Language) (line : Text) : Pass :=
  let content := line.trim
  if content = [] then p
  else
    let r := lang.readLine p.state (p.unread lang content)
    ⟨(p.levelOf lang content + r.depthChange).toNat, r.exitState⟩

/-- The layouts of the lines ahead. -/
def layouts (p : Pass) (lang : Language) : List Text → List LineLayout
  | [] => []
  | line :: rest => p.layout lang line :: (p.next lang line).layouts lang rest

/-- Behind some lines. -/
def after (p : Pass) (lang : Language) (lines : List Text) : Pass :=
  lines.foldl (fun q line => q.next lang line) p

@[simp] theorem length_layouts (p : Pass) (lang : Language) (lines : List Text) :
    (p.layouts lang lines).length = lines.length := by
  induction lines generalizing p with
  | nil => rfl
  | cons line rest ih => simp [layouts, ih]

end Pass

/-- That many tabs. -/
def tabs (n : Nat) : Text := List.replicate n '\t'

@[simp] theorem length_tabs (n : Nat) : (tabs n).length = n := List.length_replicate

namespace LineLayout

/-- The line as it is written. -/
def render : LineLayout → Text
  | blank => []
  | verbatim line => line
  | indented _ n content => tabs n ++ content

/-- The column of the written line for a column of the line that was read. A column among the
old leading blanks moves to the start of the content. -/
def moveColumn : LineLayout → Nat → Nat
  | blank, _ => 0
  | verbatim line, column => min column line.length
  | indented blanks n content, column => n + min (column - blanks) content.length

theorem moveColumn_le (l : LineLayout) (column : Nat) :
    l.moveColumn column ≤ l.render.length := by
  cases l with
  | blank => simp [moveColumn]
  | verbatim line => simp only [moveColumn, render]; omega
  | indented blanks n content =>
    simp only [moveColumn, render, List.length_append, length_tabs]
    omega

end LineLayout

/-- The layouts of all lines of a text. -/
def layouts (lang : Language) (text : Text) : List LineLayout :=
  Pass.start.layouts lang text.lines

/-- A text with every line re-indented. -/
def reindent (lang : Language) (text : Text) : Text :=
  Text.ofLines ((layouts lang text).map LineLayout.render)

/-- The length of some lines as they are written, each with its line feed. -/
def writtenLength : List LineLayout → Nat
  | [] => 0
  | l :: rest => l.render.length + 1 + writtenLength rest

/-- Where the caret at an offset goes when the text is re-indented. -/
def reindentedOffset (lang : Language) (text : Text) (offset : Nat) : Nat :=
  let p := text.place offset
  let ls := layouts lang text
  writtenLength (ls.take p.line) + (ls[p.line]?.map (·.moveColumn p.column)).getD 0

end EditingEngine
