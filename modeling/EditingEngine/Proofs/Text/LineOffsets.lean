import EditingEngine.Text.Places
import Mathlib.Data.List.TakeWhile

/-!
# Lines by offset

Counting line feeds finds the same lines as splitting the text at them. So what is put in
the place of a line, from the offset where it starts to the one where it ends, stands in its
place in the list of lines, and every offset splits the line that it is on in two.
-/
namespace EditingEngine.Text

lemma lines_append_line_feed (front back : Text) :
    lines (front ++ '\n' :: back) = lines front ++ lines back :=
  List.splitOn_append_cons_self front back

lemma lines_eq_singleton {line : Text} (h : '\n' ∉ line) : lines line = [line] :=
  List.splitOn_eq_singleton h

@[simp] theorem length_lines (text : Text) : text.lines.length = text.numLines := by
  induction text with
  | nil => rfl
  | cons c rest ih =>
    rw [lines_cons]
    split
    · next hc => simp [ih, numLines, hc]
    · next hc => simp [ih, numLines, hc]

theorem line?_eq_getElem? (text : Text) (k : Nat) : text.line? k = text.lines[k]? := by
  induction text generalizing k with
  | nil =>
    cases k with
    | zero => rfl
    | succ k => simp [line?, numLines]
  | cons c rest ih =>
    rw [lines_cons]
    cases k with
    | zero =>
      have hrest := ih 0
      simp only [line?, numLines, startOfLine, Nat.zero_lt_succ, if_true, List.drop_zero] at hrest ⊢
      split
      · next hc => simp [hc]
      · next hc => simp [hc, ← hrest]
    | succ k =>
      split
      · next hc =>
        rw [List.getElem?_cons_succ, ← ih k]
        simp only [line?, numLines, startOfLine, hc, List.count_cons_self, if_true,
          List.drop_succ_cons, Nat.add_lt_add_iff_right]
        congr
      · next hc =>
        rw [List.getElem?_modifyHead_succ, ← ih (k + 1)]
        simp [line?, numLines, startOfLine, hc]

theorem linesAbove_eq_take (text : Text) (k : Nat) : text.linesAbove k = text.lines.take k := by
  have hrange : ∀ m, (List.range m).filterMap (text.lines[·]?) = text.lines.take m := by
    intro m
    induction m with
    | zero => rfl
    | succ m ih =>
      rw [List.range_succ, List.filterMap_append, ih, List.take_add_one]
      cases h : text.lines[m]? <;> simp [h]
  have hline : text.line? = (text.lines[·]?) := funext text.line?_eq_getElem?
  rw [linesAbove, hline, hrange, ← length_lines]
  rcases Nat.le_total k text.lines.length with hk | hk
  · rw [Nat.min_eq_left hk]
  · rw [Nat.min_eq_right hk, List.take_length, List.take_of_length_le hk]

/-- Every offset is on a line of the text. -/
theorem place_line_lt (text : Text) (offset : Nat) : (text.place offset).line < text.numLines :=
  Nat.lt_succ_of_le ((List.take_sublist offset text).count_le '\n')

lemma drop_length_takeWhile (p : Char → Bool) (text : Text) :
    text.drop (text.takeWhile p).length = text.dropWhile p := by
  calc
    text.drop (text.takeWhile p).length
    _ = (text.takeWhile p ++ text.dropWhile p).drop (text.takeWhile p).length := by
      rw [List.takeWhile_append_dropWhile]
    _ = text.dropWhile p := List.drop_left

/-- A text without its first line starts with the line feed. -/
lemma eq_line_feed_of_dropWhile {text rest : Text} {c : Char}
    (h : text.dropWhile (· != '\n') = c :: rest) : c = '\n' := by
  have hhead := List.head?_dropWhile_not (· != '\n') text
  simpa [h] using hhead

/-- What follows a line is nothing or starts with its line feed. -/
lemma drop_line {text : Text} {k : Nat} (hk : k < text.numLines) :
    text.drop (text.startOfLine k + text.lineSize k) =
      (text.drop (text.startOfLine k)).dropWhile (· != '\n') := by
  have hsize : text.lineSize k =
      ((text.drop (text.startOfLine k)).takeWhile (· != '\n')).length := by
    simp [lineSize, line?, hk]
  rw [← List.drop_drop, hsize, drop_length_takeWhile]

/-- Nothing more of a line stands behind its end. -/
lemma takeWhile_drop_line {text : Text} {k : Nat} (hk : k < text.numLines) :
    (text.drop (text.startOfLine k + text.lineSize k)).takeWhile (· != '\n') = [] := by
  rw [drop_line hk]
  cases hdrop : (text.drop (text.startOfLine k)).dropWhile (· != '\n') with
  | nil => rfl
  | cons c rest =>
    obtain rfl := eq_line_feed_of_dropWhile hdrop
    rfl

/-- The first line of a text, and what follows it. -/
lemma lines_append_dropWhile (mid text : Text) :
    lines (mid ++ text.dropWhile (· != '\n')) = lines mid ++ (lines text).tail := by
  have htext : text.takeWhile (· != '\n') ++ text.dropWhile (· != '\n') = text :=
    List.takeWhile_append_dropWhile
  have hfirst : '\n' ∉ text.takeWhile (· != '\n') := fun hmem => by
    simpa using List.mem_takeWhile_imp hmem
  cases hdrop : text.dropWhile (· != '\n') with
  | nil =>
    rw [hdrop, List.append_nil] at htext
    rw [← htext, lines_eq_singleton hfirst]
    simp
  | cons c rest =>
    obtain rfl := eq_line_feed_of_dropWhile hdrop
    rw [hdrop] at htext
    rw [← htext, lines_append_line_feed, lines_append_line_feed, lines_eq_singleton hfirst]
    rfl

/-- A text in the place of a line brings its lines there. -/
theorem lines_replace_line (text mid : Text) {k : Nat} (hk : k < text.numLines) :
    lines (text.take (text.startOfLine k) ++ mid ++
        text.drop (text.startOfLine k + text.lineSize k)) =
      text.lines.take k ++ mid.lines ++ text.lines.drop (k + 1) := by
  rw [drop_line hk, List.append_assoc, List.append_assoc]
  induction text generalizing k with
  | nil =>
    obtain rfl : k = 0 := by simpa [numLines] using hk
    simp [startOfLine]
  | cons c rest ih =>
    cases k with
    | zero => simp [startOfLine, lines_append_dropWhile]
    | succ k =>
      by_cases hc : c = '\n'
      · have hrest := ih (k := k) (by simpa [numLines, hc] using hk)
        simp [startOfLine, hc, lines_cons, hrest]
      · have hrest := ih (k := k + 1) (by simpa [numLines, hc] using hk)
        obtain ⟨first, more, hlines⟩ := List.exists_cons_of_ne_nil (lines_ne_nil rest)
        rw [hlines] at hrest
        simp [startOfLine, hc, lines_cons, hrest, hlines]

/-- The text in front of an offset on its line. -/
def inFront (text : Text) (offset : Nat) : Text :=
  ((text.line? (text.place offset).line).getD []).take (text.place offset).column

/-- The text behind an offset on its line. -/
def behind (text : Text) (offset : Nat) : Text :=
  ((text.line? (text.place offset).line).getD []).drop (text.place offset).column

/-- What is in front and what is behind make up the line. -/
lemma getElem?_place (text : Text) (offset : Nat) : text.lines[(text.place offset).line]? =
    some (text.inFront offset ++ text.behind offset) := by
  have hline := List.getElem?_eq_getElem (l := text.lines) (by
    rw [length_lines]
    exact text.place_line_lt offset)
  rw [inFront, behind, line?_eq_getElem?, hline, List.take_append_drop,
    Option.getD_some]

lemma line_feed_notMem_place (text : Text) (offset : Nat) :
    '\n' ∉ text.inFront offset ∧ '\n' ∉ text.behind offset := by
  have hline := line_feed_notMem_of_mem_lines (List.mem_of_getElem? (getElem?_place text offset))
  simpa using hline

end EditingEngine.Text
