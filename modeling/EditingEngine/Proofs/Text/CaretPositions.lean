import EditingEngine.Proofs.Text.ResolvedColumns
import Mathlib.Data.Prod.Lex

/-!
# Positions of carets

Carets are measured by one count over the whole text, lines are located by their starts. Both find
the same line for every offset, and the same number of characters on it, whose cells make up the
column. So positions, lines first and columns second, are in the order of the offsets, and a line
and column that are asked for lead to the first offset of the line that has come as far as they ask.
Asking for the position that was found finds it again.
-/
namespace EditingEngine

lemma Metrics.width_eq_sum (w : Char → Option Nat) (m : Metrics) (piece : Text) :
    m.width w piece = (piece.map (m.cells w)).sum := by
  induction piece with
  | nil => rfl
  | cons c piece ih => rw [width_cons, ih, List.map_cons, List.sum_cons]

/-- A caret is at the place of its offset. It has the line, counted from one, and the offset of this
place, and its column adds up the cells of the characters in front of it on the line, up to the
largest column. -/
theorem Caret.ofOffset_at_place (w : Char → Option Nat) (m : Metrics) (text : Text) (offset : Nat) :
    let p := text.place offset
    let caret := ofOffset w m text offset
    caret.line = p.line + 1 ∧
    caret.offset = text.startOfLine p.line + p.column ∧
    caret.offset = min offset text.length ∧
    ∃ line, text.line? p.line = some line ∧ p.column ≤ line.length ∧
      caret.column = min (1 + ((line.take p.column).map (m.cells w)).sum) maxColumn := by
  intro p caret
  have hline := text.getElem?_place offset
  have hcolumn := text.column_place_le offset
  rw [Text.lineSize_eq_length hline] at hcolumn
  have hfront : (text.inFront offset ++ text.behind offset).take p.column =
      text.inFront offset := by
    rw [Text.inFront, Text.behind, List.take_append_drop]
  have hcaret : caret = _ := ofOffset_eq w m text offset
  refine ⟨by rw [hcaret], ?_, by rw [hcaret], _, ?_, hcolumn, ?_⟩
  · rw [hcaret]
    exact (text.startOfLine_add_column offset).symm
  · rw [Text.line?_eq_getElem?, hline]
  · rw [hcaret, hfront, ← Metrics.width_eq_sum]
    rfl

namespace Caret

/-- The line and the column of a caret, in the order in which a text is read. -/
def position (c : Caret) : Nat ×ₗ Nat := toLex (c.line, c.column)

variable {w : Char → Option Nat} {m : Metrics} {text line : Text} {k : Nat}

lemma position_ofOffset_mono : Monotone fun offset => (ofOffset w m text offset).position := by
  intro first second hle
  simp only [position, Prod.Lex.toLex_le_toLex, ofOffset_eq]
  rcases Nat.lt_or_eq_of_le (text.line_place_mono hle) with hlt | hsame
  · exact Or.inl (Nat.succ_lt_succ hlt)
  · -- On one line, what is in front of the first offset is in front of the second one, too.
    have hfirst := text.startOfLine_add_column first
    have hsecond := text.startOfLine_add_column second
    rw [← hsame] at hsecond
    have hcolumn : (text.place first).column ≤ (text.place second).column := by omega
    refine Or.inr ⟨by rw [hsame], advanceColumn_mono 1 ?_⟩
    rw [Text.inFront, Text.inFront, hsame]
    exact Metrics.width_take_mono hcolumn _

section Line

variable (hline : text.lines[k]? = some line) (column : Nat)
include hline

lemma line_ofOffset {offset : Nat}
    (hoffset : offset ∈ Set.Icc (text.startOfLine k) (text.startOfLine k + line.length)) :
    (ofOffset w m text offset).line = k + 1 := by
  obtain ⟨place, rfl⟩ := Nat.exists_eq_add_of_le hoffset.1
  exact (ofOffset_startOfLine_add hline (Nat.le_of_add_le_add_left hoffset.2)).1

lemma resolve_mem_line : resolve w m text (k + 1) column ∈
    Set.Icc (text.startOfLine k) (text.startOfLine k + line.length) := by
  rw [resolve_line hline]
  exact ⟨Nat.le_add_right _ _, Nat.add_le_add_left (reach_le_length w m column 1 line) _⟩

/-- The first offset of a line that reaches a column, or else the end of the line. -/
lemma resolve_le_iff {offset : Nat}
    (hoffset : offset ∈ Set.Icc (text.startOfLine k) (text.startOfLine k + line.length)) :
    resolve w m text (k + 1) column ≤ offset ↔
      column ≤ (ofOffset w m text offset).column ∨ offset = text.startOfLine k + line.length := by
  obtain ⟨place, rfl⟩ := Nat.exists_eq_add_of_le hoffset.1
  have hplace : place ≤ line.length := Nat.le_of_add_le_add_left hoffset.2
  rw [resolve_line hline, Nat.add_le_add_iff_left, reach_le_iff one_le_maxColumn,
    (ofOffset_startOfLine_add hline hplace).2, Nat.add_left_cancel_iff]
  exact or_congr_right ⟨fun hend => Nat.le_antisymm hplace hend, fun hend => hend.ge⟩

end Line

/-- The line and column of a caret lead to its position again, and no further than to its offset. -/
lemma resolve_position (w : Char → Option Nat) (m : Metrics) (text : Text) (offset : Nat) :
    let c := ofOffset w m text offset
    resolve w m text c.line c.column ≤ c.offset ∧
      (ofOffset w m text (resolve w m text c.line c.column)).position = c.position := by
  intro c
  obtain ⟨k, line, place, hline, hplace, hat⟩ :=
    Text.exists_startOfLine_add (Nat.min_le_right offset text.length)
  have hc : c = ofOffset w m text (text.startOfLine k + place) := by
    rw [← hat]
    exact ofOffset_eq_min w m text offset
  have hcOffset : c.offset = text.startOfLine k + place := (offset_ofOffset ..).trans hat
  obtain ⟨hcLine, hcColumn⟩ := ofOffset_startOfLine_add (w := w) (m := m) hline hplace
  rw [← hc] at hcLine hcColumn
  rw [hcLine, hcOffset]
  set found := resolve w m text (k + 1) c.column with hfound
  have hle : found ≤ text.startOfLine k + place := by
    rw [hfound, resolve_le_iff hline _ ⟨Nat.le_add_right _ _, Nat.add_le_add_left hplace _⟩, ← hc]
    exact Or.inl (Nat.le_refl _)
  have hmem := resolve_mem_line (w := w) (m := m) hline c.column
  refine ⟨hle, ?_⟩
  have hfoundLine : (ofOffset w m text found).line = c.line :=
    (line_ofOffset hline hmem).trans hcLine.symm
  -- Columns grow along the line, and the search does not stop before the column is reached.
  have hback : (ofOffset w m text found).position ≤ c.position := by
    rw [hc]
    exact position_ofOffset_mono hle
  have hforth : c.column ≤ (ofOffset w m text found).column := by
    rcases (resolve_le_iff hline c.column hmem).mp (Nat.le_refl _) with h | hend
    · exact h
    · have hsame : found = text.startOfLine k + place := by omega
      rw [hsame, ← hc]
  simp only [position, Prod.Lex.toLex_le_toLex] at hback ⊢
  rcases hback with hlt | ⟨-, hcolumn⟩
  · exact absurd hlt (Nat.not_lt.mpr hfoundLine.ge)
  · rw [hfoundLine, Nat.le_antisymm hcolumn hforth]

/-- A request whose column was reached is not resolved any further when it is made again. -/
lemma offset_ofPosition_again (hline : text.lines[k]? = some line) {column : Nat} :
    let c := ofPosition w m text (k + 1) column
    column ≤ c.column → (ofPosition w m text c.line c.column).offset = c.offset := by
  intro c hreached
  obtain ⟨hle, hposition⟩ := resolve_position w m text (resolve w m text (k + 1) column)
  have hcLine : c.line = k + 1 := line_ofOffset hline (resolve_mem_line hline column)
  have hcolumn : (ofOffset w m text (resolve w m text c.line c.column)).column = c.column :=
    congrArg (fun p => (ofLex p).2) hposition
  have hagain : resolve w m text (k + 1) column ≤ resolve w m text c.line c.column := by
    have hmem := resolve_mem_line (w := w) (m := m) hline c.column
    rw [← hcLine] at hmem
    rw [resolve_le_iff hline column hmem, hcolumn]
    exact Or.inl hreached
  have hoffset : c.offset = min (resolve w m text (k + 1) column) text.length := offset_ofOffset ..
  have hfurther : resolve w m text c.line c.column ≤ c.offset := hle
  rw [ofPosition, offset_ofOffset]
  omega

lemma resolve_eq_succ (line column : Nat) :
    resolve w m text line column = resolve w m text (max line 1 - 1 + 1) column := by
  have hsame : line - 1 = max line 1 - 1 + 1 - 1 := by omega
  rw [resolve, resolve, hsame]

end Caret

/-- A line past the last one resolves to the end of the text. On another line, line zero standing
for the first one, a column resolves to the first offset that reaches it, or to the end of the line.
Positions are in the order of offsets, and the position that a request was resolved to resolves to
itself: with its offset, too, if the column was reached. -/
theorem Caret.resolve_first_reaching (w : Char → Option Nat) (m : Metrics) (text : Text)
    (line column : Nat) :
    (text.numLines < line → resolve w m text line column = text.length) ∧
    (line ≤ text.numLines →
      let k := max line 1 - 1
      let onLine := Set.Icc (text.startOfLine k) (text.startOfLine k + text.lineSize k)
      resolve w m text line column ∈ onLine ∧
      ∀ offset ∈ onLine, resolve w m text line column ≤ offset ↔
        column ≤ (ofOffset w m text offset).column ∨
          offset = text.startOfLine k + text.lineSize k) ∧
    Monotone (fun offset => (ofOffset w m text offset).position) ∧
    let c := ofPosition w m text line column
    (ofPosition w m text c.line c.column).position = c.position ∧
    (line ≤ text.numLines → column ≤ c.column →
      (ofPosition w m text c.line c.column).offset = c.offset) := by
  have hexists : line ≤ text.numLines →
      ∃ chars, text.lines[max line 1 - 1]? = some chars := by
    intro hle
    have hpos : 0 < text.numLines := Nat.succ_pos _
    have hlt : max line 1 - 1 < text.lines.length := by
      rw [Text.length_lines]
      omega
    exact ⟨_, List.getElem?_eq_getElem hlt⟩
  refine ⟨?_, ?_, position_ofOffset_mono, ?_, ?_⟩
  · intro hlt
    have hnone : text.line? (line - 1) = none := if_neg (by omega)
    rw [resolve, hnone]
  · intro hle
    obtain ⟨chars, hline⟩ := hexists hle
    simp only [resolve_eq_succ line column, Text.lineSize_eq_length hline]
    exact ⟨resolve_mem_line hline column, fun offset hon => resolve_le_iff hline column hon⟩
  · exact (resolve_position w m text (resolve w m text line column)).2
  · intro hle
    obtain ⟨chars, hline⟩ := hexists hle
    have hrequest : ofPosition w m text line column =
        ofPosition w m text (max line 1 - 1 + 1) column := by
      rw [ofPosition, ofPosition, resolve_eq_succ]
    rw [hrequest]
    exact offset_ofPosition_again hline

/-- A column inside a tab leads behind it, the column that an accent shares with the letter in front
of it leads in front of the accent, and a line past the last one leads to the end. -/
theorem Caret.resolve_first_reaching_tab :
    let w : Char → Option Nat := fun c =>
      if c = '\u0301' then some 0 else if c = '世' then some 2 else some 1
    let m : Metrics := ⟨4, .byScript⟩
    let text : Text := ['a', '\n', '\t', 'e', '\u0301', '世']
    (text.numLines < 9 ∧ resolve w m text 9 1 = 6) ∧
    (2 ≤ text.numLines ∧
      4 ∈ Set.Icc (text.startOfLine 1) (text.startOfLine 1 + text.lineSize 1) ∧
      (resolve w m text 2 6 ≤ 4 ↔ 6 ≤ (ofOffset w m text 4).column ∨ 4 = 6)) ∧
    (3 ≤ 5 ∧ (ofOffset w m text 3).position ≤ (ofOffset w m text 5).position) ∧
    ofPosition w m text 2 3 = ⟨2, 5, 3⟩ ∧ (ofPosition w m text 2 5).offset = 3 := by
  intro w m text
  have hlines : 2 ≤ text.numLines := by decide
  have hpast : text.numLines < 9 := by decide
  have hon : 4 ∈ Set.Icc (text.startOfLine 1) (text.startOfLine 1 + text.lineSize 1) := by
    constructor <;> decide
  have htab : ofPosition w m text 2 3 = ⟨2, 5, 3⟩ := by decide
  have hend := (resolve_first_reaching w m text 9 1).1 hpast
  have haccent := ((resolve_first_reaching w m text 2 6).2.1 hlines).2 4 hon
  have horder := (resolve_first_reaching w m text 2 6).2.2.1 (show 3 ≤ 5 by decide)
  have hagain := (resolve_first_reaching w m text 2 3).2.2.2.2 hlines (by rw [htab]; decide)
  rw [htab] at hagain
  exact ⟨⟨hpast, hend⟩, ⟨hlines, hon, haccent⟩, ⟨by decide, horder⟩, htab, hagain⟩

end EditingEngine
