import EditingEngine.Indentation.RecentKeys
import EditingEngine.Indentation.Reindent

/-!
# Breaking a line

A line break splits a line in two and indents the second part from the first alone:
by the tabs in front of it, and, where it ends in an opening bracket or a closing
bracket has just been typed, by the brackets that it leaves open. A closing bracket
behind the break takes one level off. A closing bracket that was typed as the only
thing on a line with one tab moves out to the margin. Strings and comments that
begin on earlier lines are known from the state in which the line is entered.
-/
namespace EditingEngine

/-- A broken line: what stays on it, the tabs of the new line, and what moves there. -/
structure LineBreak where
  before : Text
  indent : Nat
  after : Text
  deriving DecidableEq, Repr

namespace LineBreak

/-- The text that replaces the line. -/
def text (b : LineBreak) : Text := b.before ++ '\n' :: (tabs b.indent ++ b.after)

/-- The offset behind the new indentation. -/
def caret (b : LineBreak) : Nat := b.before.length + 1 + b.indent

end LineBreak

/-- The blanks that a line break looks past: spaces and tabs. -/
def isGap (c : Char) : Bool := c == ' ' || c == '\t'

/-- Whether a line, but for gaps at its end, ends in an opening bracket of the code. -/
def endsWithOpener (lang : Language) (r : LineReading) (line : Text) : Bool :=
  let kept := Text.dropTrailing isGap line
  kept.getLast?.any lang.isOpener && r.kindAt? (kept.length - 1) == some .code

/-- The depth of the line behind a break, before a closing bracket there is counted. -/
def openDepth (lang : Language) (keys : RecentKeys) (r : LineReading) (before : Text) : Int :=
  let margin : Int := (before.takeWhile (· == '\t')).length
  if keys.any lang.isCloser || endsWithOpener lang r before then
    margin + r.bracketsBefore .opening before.length - r.bracketsBefore .closing before.length
  else margin

/-- What stays on a line that is broken. -/
def keptBefore (lang : Language) (keys : RecentKeys) (before : Text) : Text :=
  match keys.last.filter lang.isCloser with
  | some closer => if before = ['\t', closer] then [closer] else before
  | none => before

/-- Break the line `before ++ after`, entered in a state, between its two parts. -/
def breakLine (lang : Language) (state : LineState) (keys : RecentKeys) (before after : Text) :
    LineBreak :=
  let r := lang.readLine state before
  let depth := openDepth lang keys r before
  let moved := after.dropWhile isGap
  let closes := r.exitState.isPlain && moved.head?.any lang.isCloser
  ⟨keptBefore lang keys before, if closes then (depth - 1).toNat else depth.toNat, moved⟩

/-- A text in which a line break was made, and the offset of the caret behind it. -/
structure BrokenText where
  text : Text
  caret : Nat
  deriving DecidableEq, Repr

/-- Break the line of a text at an offset. -/
def insertLineBreak (lang : Language) (keys : RecentKeys) (text : Text) (offset : Nat) :
    BrokenText :=
  let p := text.place offset
  let line := (text.line? p.line).getD []
  let start := text.startOfLine p.line
  let state := lang.stateAfter .plain (text.linesAbove p.line)
  let b := breakLine lang state keys (line.take p.column) (line.drop p.column)
  ⟨text.take start ++ b.text ++ text.drop (start + text.lineSize p.line), start + b.caret⟩

end EditingEngine
