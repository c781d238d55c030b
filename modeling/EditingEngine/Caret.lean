import EditingEngine.Text.Places

/-!
# Carets

A caret names one position twice: by its offset into the text, and by its line and
visual column, both counted from one. The column adds up the cells of the
characters before the caret on its line, a tab covering a fixed number of cells
wherever it stands. How wide the other characters are is the business of the host:
wherever columns are measured its widths come along, as a function `w`. Columns stop
growing at the largest 64-bit number. A line and column that no position has resolve
to the first position of the line at or past the column, or to the end of the line,
and a line past the last one to the end of the text.
-/
namespace EditingEngine

/-- How characters other than tabs are measured. -/
inductive WidthRule where
  /-- Every character covers one cell. -/
  | even
  /-- A character covers as many cells as its script asks for. -/
  | byScript
  deriving DecidableEq, Repr

/-- The settings that measure columns. -/
structure Metrics where
  tabWidth : Nat
  widthRule : WidthRule
  deriving DecidableEq, Repr

namespace Metrics

/-- The metrics that count characters, with tabs of at least one cell. -/
def ofTabWidth (width : Nat) : Metrics := ⟨max width 1, .even⟩

/-- Tabs of four cells. -/
def standard : Metrics := ofTabWidth 4

/-- The cells that a character covers. By its script it covers as many as the host says, or one if
the host gives it no width. -/
def cells (w : Char → Option Nat) (m : Metrics) (c : Char) : Nat :=
  if c = '\t' then max m.tabWidth 1
  else match m.widthRule with
    | .even => 1
    | .byScript => (w c).getD 1

theorem cells_pos_of_even (w : Char → Option Nat) {m : Metrics} (h : m.widthRule = .even)
    (c : Char) : 0 < m.cells w c := by
  unfold cells
  split
  · omega
  · simp [h]

end Metrics

/-- The largest column. -/
def maxColumn : Nat := 0xFFFFFFFFFFFFFFFF

/-- The column `cells` further on, if there is one, or the largest. -/
def advanceColumn (column cells : Nat) : Nat := min (column + cells) maxColumn

/-- A position by line and column, from one, and by offset, from zero. -/
structure Caret where
  line : Nat
  column : Nat
  offset : Nat
  deriving DecidableEq, Repr

namespace Caret

/-- The start of every text. -/
def origin : Caret := ⟨1, 1, 0⟩

variable (w : Char → Option Nat) (m : Metrics)

/-- The caret after the character that stands at the caret. -/
def step (caret : Caret) (c : Char) : Caret :=
  if c = '\n' then ⟨caret.line + 1, 1, caret.offset + 1⟩
  else ⟨caret.line, advanceColumn caret.column (m.cells w c), caret.offset + 1⟩

/-- The caret at an offset, or at the end of the text if the offset is past it. -/
def ofOffset (text : Text) (offset : Nat) : Caret :=
  (text.take offset).foldl (step w m) origin

/-- The number of characters of a line before its first position at or past a column. -/
def reach (column : Nat) : Nat → Text → Nat
  | _, [] => 0
  | here, c :: rest =>
    if column ≤ here then 0 else reach column (advanceColumn here (m.cells w c)) rest + 1

/-- The offset that a line and column resolve to. Line zero is read as line one. -/
def resolve (text : Text) (line column : Nat) : Nat :=
  match text.line? (line - 1) with
  | none => text.length
  | some chars => text.startOfLine (line - 1) + reach w m column 1 chars

/-- The caret that a line and column resolve to. -/
def ofPosition (text : Text) (line column : Nat) : Caret :=
  ofOffset w m text (resolve w m text line column)

theorem offset_foldl_step (text : Text) (caret : Caret) :
    (text.foldl (step w m) caret).offset = caret.offset + text.length := by
  induction text generalizing caret with
  | nil => simp
  | cons c rest ih =>
    rw [List.foldl_cons, ih, List.length_cons]
    unfold step
    split <;> simp only <;> omega

@[simp] theorem offset_ofOffset (text : Text) (offset : Nat) :
    (ofOffset w m text offset).offset = min offset text.length := by
  simp [ofOffset, offset_foldl_step, origin]

/-- An offset past the end of the text is measured at its end. -/
theorem ofOffset_eq_min (text : Text) (offset : Nat) :
    ofOffset w m text offset = ofOffset w m text (min offset text.length) := by
  rw [ofOffset, ofOffset, ← List.take_eq_take_min]

theorem reach_le_length (column here : Nat) (text : Text) :
    reach w m column here text ≤ text.length := by
  induction text generalizing here with
  | nil => simp [reach]
  | cons c rest ih =>
    have := ih (advanceColumn here (m.cells w c))
    simp only [reach, List.length_cons]
    split <;> omega

end Caret
end EditingEngine
