import EditingEngine.Text.Lines

/-!
# Locating lines by offset

Lines are numbered from zero and located by counting line feeds in the text
itself. A line past the last one starts at the end of the text and has no
characters, and an offset past the end stands for the end. A `Place` is an offset
split into its line and the number of characters before it on that line.
-/
namespace EditingEngine.Text

/-- The number of lines. -/
def numLines (text : Text) : Nat := text.count '\n' + 1

/-- The offset just after the `k`-th line feed, or the end of the text. -/
def startOfLine : Text → Nat → Nat
  | _, 0 => 0
  | [], _ + 1 => 0
  | c :: rest, k + 1 => (if c = '\n' then startOfLine rest k else startOfLine rest (k + 1)) + 1

/-- The characters of line `k`, if the text has such a line. -/
def line? (text : Text) (k : Nat) : Option Text :=
  if k < text.numLines then some ((text.drop (text.startOfLine k)).takeWhile (· != '\n'))
  else none

/-- The number of characters of line `k`. -/
def lineSize (text : Text) (k : Nat) : Nat := ((text.line? k).getD []).length

/-- The lines before line `k`, in order. -/
def linesAbove (text : Text) (k : Nat) : List Text :=
  (List.range (min k text.numLines)).filterMap text.line?

/-- A line and a number of characters before a position on it, both from zero. -/
structure Place where
  line : Nat
  column : Nat
  deriving DecidableEq, Repr

/-- The place of an offset. -/
def place (text : Text) (offset : Nat) : Place :=
  let line := (text.take offset).count '\n'
  ⟨line, min offset text.length - text.startOfLine line⟩

/-- The offset of a place. -/
def offsetOf (text : Text) (p : Place) : Nat := text.startOfLine p.line + p.column

theorem startOfLine_le_length (text : Text) (k : Nat) : text.startOfLine k ≤ text.length := by
  induction text generalizing k with
  | nil => cases k <;> simp [startOfLine]
  | cons c rest ih =>
    cases k with
    | zero => simp [startOfLine]
    | succ k =>
      have h₁ := ih k
      have h₂ := ih (k + 1)
      simp only [startOfLine, List.length_cons]
      split <;> omega

end EditingEngine.Text
