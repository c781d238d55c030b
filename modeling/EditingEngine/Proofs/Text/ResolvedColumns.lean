import EditingEngine.Proofs.Text.CaretColumns
import EditingEngine.Proofs.Text.PlacedOffsets
import Mathlib.Data.List.Basic
import Mathlib.Order.Bounds.Basic

/-!
# Columns lead back to offsets

A caret is measured from the start of the text on, and a line and column are resolved by a walk
along the line alone. The walk stops no further on than at a given place of the line exactly if the
column at that place is large enough. So the line and column of a caret lead to the first offset
that has them. That is the offset of the caret itself, unless characters of no width stand in front
of it or the column has come to its end.
-/
namespace EditingEngine

namespace Metrics

variable {w : Char → Option Nat} {m : Metrics}

lemma width_append (front back : Text) :
    m.width w (front ++ back) = m.width w front + m.width w back := by
  induction front with
  | nil => simp
  | cons c front ih => simp [ih, Nat.add_assoc]

lemma width_take_mono {first second : Nat} (h : first ≤ second) (line : Text) :
    m.width w (line.take first) ≤ m.width w (line.take second) := by
  obtain ⟨size, rfl⟩ := Nat.exists_eq_add_of_le h
  rw [List.take_add, width_append]
  exact Nat.le_add_right _ _

end Metrics

lemma advanceColumn_mono (column : Nat) {first second : Nat} (h : first ≤ second) :
    advanceColumn column first ≤ advanceColumn column second := by
  unfold advanceColumn
  omega

namespace Caret

variable {w : Char → Option Nat} {m : Metrics}

/-- The walk to a column stops at or in front of a place exactly if the place is far enough, or the
line has nothing behind it. -/
theorem reach_le_iff {here : Nat} (hhere : here ≤ maxColumn) (column : Nat) (line : Text)
    (place : Nat) : reach w m column here line ≤ place ↔
      column ≤ advanceColumn here (m.width w (line.take place)) ∨ line.length ≤ place := by
  induction line generalizing here place with
  | nil => simp [reach]
  | cons c rest ih =>
    -- Columns only grow, so a column reached here is reached at every place behind.
    have hfurther : here ≤ advanceColumn here (m.width w ((c :: rest).take place)) :=
      Nat.le_min.mpr ⟨Nat.le_add_right _ _, hhere⟩
    rw [reach]
    split
    · next hreached => simp [hreached.trans hfurther]
    · next hbefore =>
      cases place with
      | zero => simpa [advanceColumn_zero hhere] using hbefore
      | succ place => simp [ih (advanceColumn_le _ _)]

/-- The walk to the column of a place stops at the first place that has this column. -/
theorem reach_isLeast {line : Text} {place : Nat} (hplace : place ≤ line.length) :
    IsLeast {other | other ≤ line.length ∧
        advanceColumn 1 (m.width w (line.take other)) =
          advanceColumn 1 (m.width w (line.take place))}
      (reach w m (advanceColumn 1 (m.width w (line.take place))) 1 line) := by
  set column := advanceColumn 1 (m.width w (line.take place)) with hcolumn
  have hlower : ∀ other, column ≤ advanceColumn 1 (m.width w (line.take other)) →
      reach w m column 1 line ≤ other :=
    fun other hother => (reach_le_iff one_le_maxColumn column line other).mpr (Or.inl hother)
  have hupper : column ≤ advanceColumn 1 (m.width w (line.take (reach w m column 1 line))) := by
    have hself := Nat.le_refl (reach w m column 1 line)
    rcases (reach_le_iff one_le_maxColumn column line _).mp hself with h | hend
    · exact h
    · exact advanceColumn_mono 1 (Metrics.width_take_mono (hplace.trans hend) line)
  have hback : advanceColumn 1 (m.width w (line.take (reach w m column 1 line))) ≤ column :=
    advanceColumn_mono 1 (Metrics.width_take_mono (hlower place (Nat.le_refl _)) line)
  refine ⟨⟨reach_le_length .., Nat.le_antisymm hback hupper⟩, fun other hother => ?_⟩
  exact hlower other (Nat.le_of_eq hother.2.symm)

/-- No place in front of a character that covers cells has the column behind it. -/
theorem reach_append {front : Text} (behind : Text) (hwidth : 1 + m.width w front ≤ maxColumn)
    (hlast : ∀ c ∈ front.getLast?, 0 < m.cells w c) :
    reach w m (1 + m.width w front) 1 (front ++ behind) = front.length := by
  refine Nat.le_antisymm ((reach_le_iff one_le_maxColumn _ _ _).mpr (Or.inl ?_)) ?_
  · rw [List.take_left, advanceColumn, Nat.min_eq_left hwidth]
  rcases List.eq_nil_or_concat' front with rfl | ⟨init, c, rfl⟩
  · exact Nat.zero_le _
  · have hc : 0 < m.cells w c := hlast c List.getLast?_concat
    have hsum : m.width w (init ++ [c]) = m.width w init + m.cells w c := by
      simp [Metrics.width_append]
    have hbefore : ¬ reach w m (1 + m.width w (init ++ [c])) 1 (init ++ [c] ++ behind) ≤
        init.length := by
      rw [reach_le_iff one_le_maxColumn, List.append_assoc, List.take_left, advanceColumn,
        List.length_append, List.length_append, List.length_singleton]
      omega
    rw [List.length_append, List.length_singleton]
    omega

end Caret

section Lines

variable {w : Char → Option Nat} {m : Metrics} {text line : Text} {k place : Nat}

lemma Text.exists_startOfLine_add {offset : Nat} (hoffset : offset ≤ text.length) :
    ∃ k line place, text.lines[k]? = some line ∧ place ≤ line.length ∧
      offset = text.startOfLine k + place := by
  have hline := text.getElem?_place offset
  have hplace := text.column_place_le offset
  have hback := text.startOfLine_add_column offset
  rw [lineSize_eq_length hline] at hplace
  rw [Nat.min_eq_left hoffset] at hback
  exact ⟨_, _, _, hline, hplace, hback.symm⟩

lemma Text.inFront_startOfLine_add (hline : text.lines[k]? = some line)
    (hplace : place ≤ line.length) :
    text.inFront (text.startOfLine k + place) = line.take place := by
  rw [inFront, place_startOfLine_add (lt_numLines hline)
    (hplace.trans_eq (lineSize_eq_length hline).symm), line?_eq_getElem?, hline, Option.getD_some]

namespace Caret

/-- The line and the column of a place. -/
lemma ofOffset_startOfLine_add (hline : text.lines[k]? = some line) (hplace : place ≤ line.length) :
    (ofOffset w m text (text.startOfLine k + place)).line = k + 1 ∧
      (ofOffset w m text (text.startOfLine k + place)).column =
        advanceColumn 1 (m.width w (line.take place)) := by
  have hat := Text.place_startOfLine_add (Text.lt_numLines hline)
    (hplace.trans_eq (Text.lineSize_eq_length hline).symm)
  rw [ofOffset_eq, hat, Text.inFront_startOfLine_add hline hplace]
  exact ⟨rfl, rfl⟩

/-- An offset whose caret is on a line is that of a place on it. -/
lemma exists_place_of_line (hline : text.lines[k]? = some line) {offset : Nat}
    (hoffset : offset ≤ text.length) (hcaret : (ofOffset w m text offset).line = k + 1) :
    ∃ place ≤ line.length, offset = text.startOfLine k + place := by
  obtain ⟨k', line', place, hline', hplace, rfl⟩ := Text.exists_startOfLine_add hoffset
  rw [(ofOffset_startOfLine_add hline' hplace).1, Nat.add_right_cancel_iff] at hcaret
  subst hcaret
  obtain rfl : line' = line := Option.some.inj (hline'.symm.trans hline)
  exact ⟨place, hplace, rfl⟩

lemma resolve_line (hline : text.lines[k]? = some line) (column : Nat) :
    resolve w m text (k + 1) column = text.startOfLine k + reach w m column 1 line := by
  rw [resolve, Nat.add_sub_cancel, Text.line?_eq_getElem?, hline]

end Caret
end Lines

/-- Whatever widths the host gives characters, zero and none included: a caret has its offset, and
its line and column lead to the first offset that has them. This is the offset itself if the column
is the sum of the cells in front of it and the last character there, if there is one, covers any.
Every character does under the even rule. -/
theorem Caret.resolve_ofOffset (w : Char → Option Nat) (m : Metrics) {text : Text} {offset : Nat}
    (hoffset : offset ≤ text.length) :
    let caret := ofOffset w m text offset
    caret.offset = offset ∧
    IsLeast {other | other ≤ text.length ∧ (ofOffset w m text other).line = caret.line ∧
        (ofOffset w m text other).column = caret.column}
      (resolve w m text caret.line caret.column) ∧
    (1 + m.width w (text.inFront offset) ≤ maxColumn →
      m.widthRule = .even ∨ (∀ c ∈ (text.inFront offset).getLast?, m.cells w c ≠ 0) →
      resolve w m text caret.line caret.column = offset) := by
  intro caret
  refine ⟨by rw [offset_ofOffset, Nat.min_eq_left hoffset], ?_⟩
  obtain ⟨k, line, place, hline, hplace, rfl⟩ := Text.exists_startOfLine_add hoffset
  obtain ⟨hatLine, hatColumn⟩ : caret.line = k + 1 ∧
      caret.column = advanceColumn 1 (m.width w (line.take place)) :=
    ofOffset_startOfLine_add hline hplace
  rw [hatLine, hatColumn, resolve_line hline, Text.inFront_startOfLine_add hline hplace]
  constructor
  · obtain ⟨⟨hon, hsame⟩, hfirst⟩ := reach_isLeast (w := w) (m := m) hplace
    have hle := hfirst ⟨hplace, rfl⟩
    obtain ⟨hreachLine, hreachColumn⟩ := ofOffset_startOfLine_add (w := w) (m := m) hline hon
    refine ⟨⟨by omega, hreachLine, hreachColumn.trans hsame⟩, ?_⟩
    rintro other ⟨hother, hotherLine, hotherColumn⟩
    obtain ⟨place', hplace', rfl⟩ := exists_place_of_line hline hother hotherLine
    have hcolumn := (ofOffset_startOfLine_add (w := w) (m := m) hline hplace').2
    exact Nat.add_le_add_left (hfirst ⟨hplace', hcolumn.symm.trans hotherColumn⟩) _
  · intro hwidth hlast
    have hcovers : ∀ c ∈ (line.take place).getLast?, 0 < m.cells w c := by
      rintro c hc
      rcases hlast with heven | hcells
      · exact Metrics.cells_pos_of_even w heven c
      · exact Nat.pos_of_ne_zero (hcells c hc)
    have hreach := reach_append (line.drop place) hwidth hcovers
    rw [List.take_append_drop, List.length_take, Nat.min_eq_left hplace] at hreach
    rw [advanceColumn, Nat.min_eq_left hwidth, hreach]

/-- The column behind a combining accent is the one in front of it, and leads there. A tab has a
column of its own behind it, and so has a control character, which is given no width. -/
theorem Caret.resolve_ofOffset_accent :
    let w : Char → Option Nat := fun c =>
      if c = '\u0301' then some 0 else if c = '\u0007' then none else some 1
    let m : Metrics := ⟨4, .byScript⟩
    let text : Text := ['a', '\n', 'e', '\u0301', '\t', '\u0007']
    (4 ≤ text.length ∧ ofOffset w m text 4 = ⟨2, 2, 4⟩ ∧
      IsLeast {other | other ≤ text.length ∧
        (ofOffset w m text other).line = 2 ∧ (ofOffset w m text other).column = 2} 3 ∧
      resolve w m text 2 2 = 3) ∧
    (6 ≤ text.length ∧ 1 + m.width w (text.inFront 6) ≤ maxColumn ∧
      (∀ c ∈ (text.inFront 6).getLast?, m.cells w c ≠ 0) ∧ ofOffset w m text 6 = ⟨2, 7, 6⟩ ∧
      resolve w m text 2 7 = 6) ∧
    1 + Metrics.standard.width w (text.inFront 4) ≤ maxColumn ∧
      Metrics.standard.widthRule = .even ∧ ofOffset w Metrics.standard text 4 = ⟨2, 3, 4⟩ ∧
      resolve w Metrics.standard text 2 3 = 4 := by
  intro w m text
  have haccent : 4 ≤ text.length := by decide
  have hend : 6 ≤ text.length := by decide
  have hwidth : 1 + m.width w (text.inFront 6) ≤ maxColumn := by decide
  have hlast : (text.inFront 6).getLast? = some '\u0007' := by decide
  have hcells : ∀ c ∈ (text.inFront 6).getLast?, m.cells w c ≠ 0 := by
    rw [hlast]
    rintro _ ⟨⟩
    decide
  have heven : 1 + Metrics.standard.width w (text.inFront 4) ≤ maxColumn := by decide
  have hcaret : ofOffset w m text 4 = ⟨2, 2, 4⟩ := by decide
  have hresolved : resolve w m text 2 2 = 3 := by decide
  have hendCaret : ofOffset w m text 6 = ⟨2, 7, 6⟩ := by decide
  have hevenCaret : ofOffset w Metrics.standard text 4 = ⟨2, 3, 4⟩ := by decide
  have hfirst := (resolve_ofOffset w m haccent).2.1
  have hback := (resolve_ofOffset w m hend).2.2 hwidth (Or.inr hcells)
  have hevenBack := (resolve_ofOffset w Metrics.standard haccent).2.2 heven (Or.inl rfl)
  rw [hcaret] at hfirst
  rw [hendCaret] at hback
  rw [hevenCaret] at hevenBack
  exact ⟨⟨haccent, hcaret, hresolved ▸ hfirst, hresolved⟩,
    ⟨hend, hwidth, hcells, hendCaret, hback⟩, heven, rfl, hevenCaret, hevenBack⟩

end EditingEngine
