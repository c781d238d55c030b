/-!
# Texts and their lines

A text is a list of Unicode scalar values, so every offset, index and length of
the engine counts scalar values. Only a line feed ends a line: a text with `n`
line feeds has `n + 1` lines, and a text that ends in a line feed has an empty
last line.
-/
namespace EditingEngine

/-- A text, or a piece of one. -/
abbrev Text := List Char

namespace Text

/-- The lines of a text, without their line feeds. -/
def lines (text : Text) : List Text := text.splitOn '\n'

/-- The text whose lines are the given ones. -/
def ofLines (ls : List Text) : Text := List.intercalate ['\n'] ls

@[simp] theorem lines_nil : lines [] = [[]] := List.splitOn_nil _

theorem lines_cons (c : Char) (rest : Text) :
    lines (c :: rest) =
      if c = '\n' then [] :: lines rest else (lines rest).modifyHead (c :: ·) := by
  simp [lines, List.splitOn, List.splitOnP_cons_eq_if_modifyHead]

theorem line_feed_notMem_of_mem_lines {text line : Text} (h : line ∈ lines text) : '\n' ∉ line := by
  induction text generalizing line with
  | nil => simp_all
  | cons c rest ih =>
    rw [lines_cons] at h
    split at h
    · rcases List.mem_cons.mp h with rfl | h
      · simp
      · exact ih h
    · next hc =>
      cases hrest : lines rest with
      | nil => simp [hrest] at h
      | cons first more =>
        rw [hrest, List.modifyHead_cons] at h
        rcases List.mem_cons.mp h with rfl | h
        · have hfirst : '\n' ∉ first := ih (by simp [hrest])
          simp [Ne.symm hc, hfirst]
        · exact ih (by simp [hrest, h])

theorem ofLines_cons_cons (line next : Text) (rest : List Text) :
    ofLines (line :: next :: rest) = line ++ '\n' :: ofLines (next :: rest) := by
  simp [ofLines, List.intercalate, List.intersperse]

theorem lines_ne_nil (text : Text) : lines text ≠ [] := List.splitOn_ne_nil _ _

@[simp] theorem ofLines_lines (text : Text) : ofLines (lines text) = text :=
  List.intercalate_splitOn _

theorem lines_ofLines {ls : List Text} (hne : ls ≠ []) (h : ∀ line ∈ ls, '\n' ∉ line) :
    lines (ofLines ls) = ls :=
  List.splitOn_intercalate _ h hne

end Text
end EditingEngine
