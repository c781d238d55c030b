/-!
# The state between two lines

A line is read in the state that the line before it left behind: in plain code, in
a string, or in a block comment. Only strings and block comments run on past the
end of a line.
-/
namespace EditingEngine

/-- What is open at a line boundary. -/
structure LineState where
  /-- The quote that closes the open string, if a string is open. -/
  openQuote : Option Char
  inComment : Bool
  deriving DecidableEq, Repr

namespace LineState

/-- Nothing is open. -/
def plain : LineState := ⟨none, false⟩

def inString (s : LineState) : Bool := s.openQuote.isSome

def isPlain (s : LineState) : Bool := !s.inString && !s.inComment

theorem isPlain_iff (s : LineState) : s.isPlain = true ↔ s = plain := by
  obtain ⟨quote, comment⟩ := s
  cases quote <;> cases comment <;> simp [isPlain, inString, plain]

end LineState

/-- What a character of a line belongs to. -/
inductive CharKind where
  | code
  /-- A string, its quotes included. -/
  | string
  /-- A block comment, its markers included. -/
  | blockComment
  /-- A line comment, from its marker to the end of the line. -/
  | lineComment
  deriving DecidableEq, Repr

/-- The part that a bracket plays in its pair. -/
inductive Side where
  | opening
  | closing
  deriving DecidableEq, Repr

/-- What a bracket does to the depth of what follows it. -/
def Side.depthChange : Side → Int
  | .opening => 1
  | .closing => -1

end EditingEngine
