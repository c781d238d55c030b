import EditingEngine.Caret
import EditingEngine.Proofs.Text.LineOffsets

/-!
# Columns by the text in front of them

A caret is measured character by character from the start of the text. What comes out is the
line that the offset is on and a column that adds up the cells of the text in front of the
offset on that line, up to the largest column. So the metrics have a part in the column alone,
and what stands on other lines has none.
-/
namespace EditingEngine

namespace Metrics

variable (w : Char → Option Nat) (m : Metrics)

/-- The cells that a piece of a line covers. -/
def width : Text → Nat
  | [] => 0
  | c :: piece => m.cells w c + width piece

@[simp] theorem width_nil : m.width w [] = 0 := rfl

@[simp] theorem width_cons (c : Char) (piece : Text) :
    m.width w (c :: piece) = m.cells w c + m.width w piece := rfl

end Metrics

@[simp] theorem advanceColumn_advanceColumn (column first second : Nat) :
    advanceColumn (advanceColumn column first) second = advanceColumn column (first + second) := by
  unfold advanceColumn
  omega

theorem advanceColumn_le (column cells : Nat) : advanceColumn column cells ≤ maxColumn :=
  Nat.min_le_right _ _

lemma one_le_maxColumn : 1 ≤ maxColumn := by decide

lemma advanceColumn_zero {column : Nat} (h : column ≤ maxColumn) :
    advanceColumn column 0 = column :=
  Nat.min_eq_left h

namespace Text

@[simp] theorem place_zero (text : Text) : text.place 0 = ⟨0, 0⟩ := by
  simp [place, startOfLine]

@[simp] theorem place_nil (offset : Nat) : place [] offset = ⟨0, 0⟩ := by
  simp [place, startOfLine]

@[simp] theorem inFront_zero (text : Text) : text.inFront 0 = [] := by
  simp [inFront]

@[simp] theorem inFront_nil (offset : Nat) : inFront [] offset = [] := by
  simp [inFront]

lemma line_place_cons (c : Char) (rest : Text) (offset : Nat) :
    (place (c :: rest) (offset + 1)).line =
      (rest.place offset).line + if c = '\n' then 1 else 0 := by
  simp [place, List.count_cons]

lemma line?_line_feed_cons (rest : Text) (k : Nat) :
    line? ('\n' :: rest) (k + 1) = rest.line? k :=
  if_congr (by simp [numLines]) (by simp [startOfLine]) rfl

/-- A character is in front of the offsets behind it as long as its line goes on. -/
lemma inFront_cons (c : Char) (rest : Text) (offset : Nat) :
    inFront (c :: rest) (offset + 1) =
      if c ≠ '\n' ∧ (rest.place offset).line = 0 then c :: rest.inFront offset
      else rest.inFront offset := by
  by_cases hc : c = '\n'
  · simp [inFront, place, startOfLine, line?_line_feed_cons, hc]
  · cases hline : (rest.place offset).line with
    | zero =>
      have hcount : (rest.take offset).count '\n' = 0 := hline
      simp [inFront, place, line?, numLines, startOfLine, hc, hcount]
    | succ k =>
      have hcount : (rest.take offset).count '\n' = k + 1 := hline
      simp [inFront, place, line?, numLines, startOfLine, hc, hcount]

end Text

namespace Caret

variable (w : Char → Option Nat) (m : Metrics)

lemma foldl_step_take (text : Text) (offset : Nat) {caret : Caret}
    (hcolumn : caret.column ≤ maxColumn) :
    (text.take offset).foldl (step w m) caret =
      ⟨caret.line + (text.place offset).line,
        advanceColumn (if (text.place offset).line = 0 then caret.column else 1)
          (m.width w (text.inFront offset)),
        caret.offset + min offset text.length⟩ := by
  induction text generalizing offset caret with
  | nil => simp [advanceColumn_zero hcolumn]
  | cons c rest ih =>
    cases offset with
    | zero => simp [advanceColumn_zero hcolumn]
    | succ offset =>
      rw [List.take_succ_cons, List.foldl_cons]
      by_cases hc : c = '\n'
      · rw [step, if_pos hc, ih offset one_le_maxColumn]
        simp [hc, Text.line_place_cons, Text.inFront_cons]
        omega
      · rw [step, if_neg hc, ih offset (advanceColumn_le _ _)]
        by_cases hline : (Text.place rest offset).line = 0
        · simp [hc, hline, Text.line_place_cons, Text.inFront_cons]
          omega
        · simp [hc, hline, Text.line_place_cons, Text.inFront_cons]
          omega

/-- The caret at an offset in closed form. -/
theorem ofOffset_eq (text : Text) (offset : Nat) :
    ofOffset w m text offset =
      ⟨(text.place offset).line + 1, advanceColumn 1 (m.width w (text.inFront offset)),
        min offset text.length⟩ := by
  rw [ofOffset, foldl_step_take w m text offset one_le_maxColumn]
  simp [origin, Nat.add_comm]

end Caret
end EditingEngine
