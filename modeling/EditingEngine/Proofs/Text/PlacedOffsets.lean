import EditingEngine.Proofs.Text.LineOffsets
import Mathlib.Algebra.GroupWithZero.Nat
import Mathlib.Data.Set.Function

/-!
# Offsets as places

An offset is on the line whose feed has not come yet, at a column that the line has room for. The
other way round every column that a line has room for is the place of one offset: the length of the
lines above with their feeds, and the column. So places and offsets stand for each other and are in
the same order, and what is at an offset is what is at its column on its line.
-/
namespace EditingEngine.Text

/-- The place of an offset, by the first character. -/
lemma place_cons (c : Char) (rest : Text) (offset : Nat) :
    place (c :: rest) (offset + 1) =
      if c = '\n' then ⟨(rest.place offset).line + 1, (rest.place offset).column⟩
      else if (rest.place offset).line = 0 then ⟨0, (rest.place offset).column + 1⟩
      else rest.place offset := by
  by_cases hc : c = '\n'
  · simp [place, startOfLine, hc]
  · cases hcount : (rest.take offset).count '\n' with
    | zero => simp [place, startOfLine, hc, hcount]
    | succ k => simp [place, startOfLine, hc, hcount]

lemma lineSize_eq (text : Text) (k : Nat) : text.lineSize k = (text.lines[k]?.getD []).length := by
  rw [lineSize, line?_eq_getElem?]

lemma lineSize_zero (c : Char) (rest : Text) :
    lineSize (c :: rest) 0 = if c = '\n' then 0 else rest.lineSize 0 + 1 := by
  obtain ⟨first, more, hlines⟩ := List.exists_cons_of_ne_nil (lines_ne_nil rest)
  rw [lineSize_eq, lineSize_eq, lines_cons, hlines]
  split <;> simp

lemma lineSize_succ (c : Char) (rest : Text) (k : Nat) :
    lineSize (c :: rest) (k + 1) = if c = '\n' then rest.lineSize k else rest.lineSize (k + 1) := by
  obtain ⟨first, more, hlines⟩ := List.exists_cons_of_ne_nil (lines_ne_nil rest)
  simp only [lineSize_eq, lines_cons, hlines]
  split <;> simp

/-- A place leads back to its offset. -/
theorem offsetOf_place (text : Text) (offset : Nat) :
    text.offsetOf (text.place offset) = min offset text.length := by
  simp only [offsetOf]
  induction text generalizing offset with
  | nil => simp [place, startOfLine]
  | cons c rest ih =>
    cases offset with
    | zero => simp [place, startOfLine]
    | succ offset =>
      have hrest := ih offset
      rw [place_cons, List.length_cons]
      by_cases hc : c = '\n'
      · simp only [hc, if_true, startOfLine]
        omega
      · cases hline : (place rest offset).line with
        | zero =>
          simp only [hline, startOfLine] at hrest
          simp only [hc, if_true, if_false, startOfLine]
          omega
        | succ k =>
          simp only [hline] at hrest
          simp only [hc, if_false, Nat.succ_ne_zero, hline, startOfLine]
          omega

lemma startOfLine_add_column (text : Text) (offset : Nat) :
    text.startOfLine (text.place offset).line + (text.place offset).column =
      min offset text.length :=
  text.offsetOf_place offset

/-- A place is on its line. -/
theorem column_place_le (text : Text) (offset : Nat) :
    (text.place offset).column ≤ text.lineSize (text.place offset).line := by
  induction text generalizing offset with
  | nil => simp [place]
  | cons c rest ih =>
    cases offset with
    | zero => simp [place]
    | succ offset =>
      have hrest := ih offset
      rw [place_cons]
      by_cases hc : c = '\n'
      · simpa [hc, lineSize_succ] using hrest
      · cases hline : (place rest offset).line with
        | zero =>
          rw [hline] at hrest
          simpa [hc, lineSize_zero] using hrest
        | succ k =>
          rw [hline] at hrest
          simpa [hc, hline, lineSize_succ] using hrest

/-- Every column that a line has room for is the place of an offset. -/
theorem place_startOfLine_add {text : Text} {k column : Nat} (hk : k < text.numLines)
    (hcolumn : column ≤ text.lineSize k) :
    text.place (text.startOfLine k + column) = ⟨k, column⟩ := by
  induction text generalizing k column with
  | nil =>
    obtain rfl : k = 0 := by simpa [numLines] using hk
    obtain rfl : column = 0 := by simpa [lineSize, line?, numLines] using hcolumn
    rfl
  | cons c rest ih =>
    cases k with
    | zero =>
      rw [lineSize_zero] at hcolumn
      cases column with
      | zero => rfl
      | succ column =>
        by_cases hc : c = '\n'
        · simp [hc] at hcolumn
        · have hrest : place rest (startOfLine rest 0 + column) = ⟨0, column⟩ :=
            ih (Nat.succ_pos _) (by simpa [hc] using hcolumn)
          rw [startOfLine, Nat.zero_add] at hrest
          simp [startOfLine, place_cons, hc, hrest]
    | succ k =>
      rw [lineSize_succ] at hcolumn
      by_cases hc : c = '\n'
      · have hrest := ih (k := k) (by simpa [numLines, hc] using hk) (by simpa [hc] using hcolumn)
        simp [startOfLine, hc, Nat.add_right_comm, place_cons, hrest]
      · have hrest := ih (k := k + 1) (by simpa [numLines, hc] using hk)
          (by simpa [hc] using hcolumn)
        simp [startOfLine, hc, Nat.add_right_comm, place_cons, hrest]

/-- Offsets and lines are in the same order. -/
lemma line_place_mono (text : Text) {first second : Nat} (h : first ≤ second) :
    (text.place first).line ≤ (text.place second).line :=
  (List.take_sublist_take_left h).count_le '\n'

/-- A line ends in front of the lines below it. -/
lemma startOfLine_add_lineSize_lt {text : Text} {k below : Nat} (hk : k < below)
    (hbelow : below < text.numLines) :
    text.startOfLine k + text.lineSize k < text.startOfLine below := by
  -- Otherwise the start of the lower line would be an offset in front of the end of the upper one.
  by_contra hle
  have hend := place_startOfLine_add (Nat.lt_trans hk hbelow) (Nat.le_refl (text.lineSize k))
  have hstart := place_startOfLine_add hbelow (Nat.zero_le (text.lineSize below))
  have hlines := text.line_place_mono (Nat.le_of_not_lt hle)
  rw [← Nat.add_zero (text.startOfLine below), hstart, hend] at hlines
  exact absurd hk (Nat.not_lt.mpr hlines)

/-- A line starts behind the lines above it, each of which has its feed. -/
lemma startOfLine_eq_sum {text : Text} {k : Nat} (hk : k < text.numLines) :
    text.startOfLine k = ((text.lines.take k).map (·.length + 1)).sum := by
  induction text generalizing k with
  | nil =>
    obtain rfl : k = 0 := by simpa [numLines] using hk
    rfl
  | cons c rest ih =>
    cases k with
    | zero => rfl
    | succ k =>
      by_cases hc : c = '\n'
      · have hrest := ih (k := k) (by simpa [numLines, hc] using hk)
        simp [startOfLine, lines_cons, hc, hrest, Nat.add_comm]
      · have hrest := ih (k := k + 1) (by simpa [numLines, hc] using hk)
        obtain ⟨first, more, hlines⟩ := List.exists_cons_of_ne_nil (lines_ne_nil rest)
        rw [hlines] at hrest
        simp only [startOfLine, lines_cons, hc, if_false, hlines, hrest, List.modifyHead_cons,
          List.take_succ_cons, List.map_cons, List.sum_cons, List.length_cons]
        omega

section Lines

variable {text line : Text} {k : Nat} (hline : text.lines[k]? = some line)
include hline

lemma lt_numLines : k < text.numLines := by
  rw [← length_lines]
  exact (List.getElem?_eq_some_iff.mp hline).1

lemma lineSize_eq_length : text.lineSize k = line.length := by
  rw [lineSize_eq, hline, Option.getD_some]

/-- A line is the stretch of the text between its two ends. -/
lemma take_drop_startOfLine : (text.drop (text.startOfLine k)).take line.length = line := by
  have hwhole := hline
  rw [← line?_eq_getElem?, line?, if_pos (lt_numLines hline), Option.some.injEq] at hwhole
  rw [← hwhole]
  exact (List.prefix_iff_eq_take.mp (List.takeWhile_prefix _)).symm

/-- What is at an offset of a line is what is at its column. -/
lemma getElem?_startOfLine_add {column : Nat} (hcolumn : column < line.length) :
    text[text.startOfLine k + column]? = (line : Text)[column]? := by
  calc
    text[text.startOfLine k + column]?
    _ = (text.drop (text.startOfLine k))[column]? := List.getElem?_drop.symm
    _ = ((text.drop (text.startOfLine k)).take line.length)[column]? :=
      (List.getElem?_take_of_lt hcolumn).symm
    _ = (line : Text)[column]? := by rw [take_drop_startOfLine hline]

/-- Behind a line is its feed, or nothing if it is the last one. -/
lemma getElem?_line_end : text[text.startOfLine k + line.length]? =
    if k + 1 < text.numLines then some '\n' else none := by
  have hk := lt_numLines hline
  have hplace := place_startOfLine_add hk (Nat.le_refl (text.lineSize k))
  rw [lineSize_eq_length hline] at hplace
  have hcount : (text.take (text.startOfLine k + line.length)).count '\n' = k :=
    congrArg Place.line hplace
  have htext := List.take_append_drop (text.startOfLine k + line.length) text
  have hdrop := drop_line hk
  rw [lineSize_eq_length hline] at hdrop
  rw [← List.head?_drop]
  -- The feeds up to here are those of the lines above, so one more line needs one more feed.
  cases hrest : text.drop (text.startOfLine k + line.length) with
  | nil =>
    have hlast : ¬ k + 1 < text.numLines := by
      rw [hrest, List.append_nil] at htext
      rw [htext] at hcount
      rw [numLines, hcount]
      omega
    rw [if_neg hlast]
    rfl
  | cons c rest =>
    obtain rfl := eq_line_feed_of_dropWhile (hdrop.symm.trans hrest)
    have hmore : k + 1 < text.numLines := by
      rw [numLines, ← htext, hrest, List.count_append, hcount, List.count_cons_self]
      omega
    rw [if_pos hmore]
    rfl

/-- What is at a column of a line, or behind it, is the same in every text that has the line in this
place and as many lines. -/
lemma getElem?_startOfLine_congr {other : Text} (hother : other.lines[k]? = some line)
    (hcount : other.numLines = text.numLines) {column : Nat} (hcolumn : column ≤ line.length) :
    other[other.startOfLine k + column]? = text[text.startOfLine k + column]? := by
  rcases Nat.lt_or_eq_of_le hcolumn with hlt | rfl
  · rw [getElem?_startOfLine_add hline hlt, getElem?_startOfLine_add hother hlt]
  · rw [getElem?_line_end hline, getElem?_line_end hother, hcount]

/-- The next line starts behind the feed. -/
lemma startOfLine_succ (hnext : k + 1 < text.numLines) :
    text.startOfLine (k + 1) = text.startOfLine k + line.length + 1 := by
  rw [startOfLine_eq_sum hnext, startOfLine_eq_sum (lt_numLines hline), List.take_add_one, hline]
  simp [Nat.add_assoc]

end Lines

/-- There is nothing at the offsets past the end, which stand for the end. -/
lemma getElem?_offsetOf_place (text : Text) (offset : Nat) :
    text[text.offsetOf (text.place offset)]? = text[offset]? := by
  rw [offsetOf_place]
  rcases Nat.le_total offset text.length with hle | hle
  · rw [Nat.min_eq_left hle]
  · rw [Nat.min_eq_right hle, List.getElem?_eq_none (Nat.le_refl _), List.getElem?_eq_none hle]

/-- The ends of the line of an offset: the line feeds next to it, or the ends of the text. -/
structure IsLineAround (text : Text) (offset first last : Nat) : Prop where
  first_le : first ≤ offset
  le_last : offset ≤ last
  last_le : last ≤ text.length
  no_feed : '\n' ∉ (text.take last).drop first
  starts : first = 0 ∨ text[first - 1]? = some '\n'
  ends : last = text.length ∨ text[last]? = some '\n'

theorem isLineAround_place (text : Text) (offset : Nat) :
    text.IsLineAround (min offset text.length) (text.startOfLine (text.place offset).line)
      (text.startOfLine (text.place offset).line + text.lineSize (text.place offset).line) := by
  have hline := text.getElem?_place offset
  have hsize := lineSize_eq_length hline
  have hstretch := take_drop_startOfLine hline
  have hcolumn := text.column_place_le offset
  have hoffset := text.startOfLine_add_column offset
  have hlast : text.startOfLine (text.place offset).line + text.lineSize (text.place offset).line ≤
      text.length := by
    have hlength := congrArg List.length hstretch
    have hstart := text.startOfLine_le_length (text.place offset).line
    rw [List.length_take, List.length_drop] at hlength
    omega
  refine ⟨by omega, by omega, hlast, ?_, ?_, ?_⟩
  · rw [List.drop_take, Nat.add_sub_cancel_left, hsize, hstretch]
    exact line_feed_notMem_of_mem_lines (List.mem_of_getElem? hline)
  · cases hk : (text.place offset).line with
    | zero => exact Or.inl (by simp [startOfLine])
    | succ k =>
      have hnext : k + 1 < text.numLines := hk ▸ text.place_line_lt offset
      have hlt : k < text.lines.length := by
        rw [length_lines]
        omega
      have habove := List.getElem?_eq_getElem hlt
      refine Or.inr ?_
      rw [startOfLine_succ habove hnext, Nat.add_sub_cancel, getElem?_line_end habove, if_pos hnext]
  · have hend := getElem?_line_end hline
    rw [← hsize] at hend
    by_cases hnext : (text.place offset).line + 1 < text.numLines
    · rw [if_pos hnext] at hend
      exact Or.inr hend
    · rw [if_neg hnext] at hend
      exact Or.inl (Nat.le_antisymm hlast (List.getElem?_eq_none_iff.mp hend))

section Cut

variable (text : Text) (offset : Nat)

lemma line_place_eq : (text.line? (text.place offset).line).getD [] =
    (text.drop (text.startOfLine (text.place offset).line)).take
      (text.lineSize (text.place offset).line) := by
  have hline := text.getElem?_place offset
  rw [lineSize_eq_length hline, take_drop_startOfLine hline, line?_eq_getElem?, hline,
    Option.getD_some]

/-- The text in front of an offset on its line, cut out of the text. -/
lemma inFront_eq : text.inFront offset =
    (text.take (min offset text.length)).drop (text.startOfLine (text.place offset).line) := by
  have hoffset := text.startOfLine_add_column offset
  rw [inFront, line_place_eq, List.take_take, Nat.min_eq_left (text.column_place_le offset),
    ← hoffset, List.drop_take, Nat.add_sub_cancel_left]

/-- The text behind an offset on its line, cut out of the text. -/
lemma behind_eq : text.behind offset =
    (text.take (text.startOfLine (text.place offset).line +
      text.lineSize (text.place offset).line)).drop (min offset text.length) := by
  have hoffset := text.startOfLine_add_column offset
  rw [behind, line_place_eq, List.drop_take, List.drop_drop, ← hoffset, List.drop_take,
    Nat.add_sub_add_left]

end Cut

section Index

variable (text : Text)

/-- The offsets of a text, the one of its end included. -/
def offsets : Set Nat := {offset | offset ≤ text.length}

/-- The columns that the lines of a text have room for. -/
def places : Set Place := {p | p.line < text.numLines ∧ p.column ≤ text.lineSize p.line}

lemma place_mapsTo : Set.MapsTo text.place text.offsets text.places :=
  fun offset _ => ⟨text.place_line_lt offset, text.column_place_le offset⟩

lemma place_offsetOf {p : Place} (hp : p ∈ text.places) : text.place (text.offsetOf p) = p :=
  place_startOfLine_add hp.1 hp.2

/-- An offset past the end is the offset of no place. -/
lemma offsetOf_mapsTo : Set.MapsTo text.offsetOf text.places text.offsets := by
  intro p hp
  have hoffset := text.offsetOf_place (text.offsetOf p)
  rw [text.place_offsetOf hp] at hoffset
  calc text.offsetOf p
    _ = min (text.offsetOf p) text.length := hoffset
    _ ≤ text.length := Nat.min_le_right _ _

lemma offsetOf_invOn_place : Set.InvOn text.offsetOf text.place text.offsets text.places := by
  constructor
  · intro offset hoffset
    rw [offsetOf_place]
    exact Nat.min_eq_left hoffset
  · exact fun p hp => text.place_offsetOf hp

/-- The lines that are located by offset are the pieces of the text between its line feeds, so they
make up the text when they are joined, and the lines above a line are as many of the first ones as
there are. Offsets up to the end of the text and columns that the lines have room for stand for each
other. -/
theorem places_index_text :
    text.numLines = (text.splitOn '\n').length ∧
    (∀ k, text.line? k = (text.splitOn '\n')[k]?) ∧
    List.intercalate ['\n'] (text.linesAbove text.numLines) = text ∧
    (∀ k, text.linesAbove k = (text.splitOn '\n').take (min k text.numLines)) ∧
    Set.BijOn text.place text.offsets text.places ∧
    Set.BijOn text.offsetOf text.places text.offsets ∧
    Set.InvOn text.offsetOf text.place text.offsets text.places := by
  have hall : text.linesAbove text.numLines = text.lines := by
    rw [linesAbove_eq_take, ← length_lines, List.take_length]
  have hinv := text.offsetOf_invOn_place
  refine ⟨text.length_lines.symm, text.line?_eq_getElem?, ?_, ?_, ?_, ?_, hinv⟩
  · rw [hall]
    exact text.ofLines_lines
  · intro k
    rw [linesAbove_eq_take, ← length_lines, List.take_eq_take_min]
    rfl
  · exact hinv.bijOn text.place_mapsTo text.offsetOf_mapsTo
  · exact hinv.symm.bijOn text.offsetOf_mapsTo text.place_mapsTo

-- Both ends of a line have places of their own, also behind a line feed that ends the text.
example : (List.range 6).map (place "ab\n\n".toList) =
    [⟨0, 0⟩, ⟨0, 1⟩, ⟨0, 2⟩, ⟨1, 0⟩, ⟨2, 0⟩, ⟨2, 0⟩] := by decide

end Index

end EditingEngine.Text
