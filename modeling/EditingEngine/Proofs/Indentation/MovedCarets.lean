import EditingEngine.Proofs.Indentation.NormalForm
import EditingEngine.Proofs.Text.PlacedOffsets

/-!
# Carets in re-indented texts

A caret stays on its line when a text is re-indented. On a line that is written anew it stays at its
character of the content and moves to the content from the blanks around it; on a line that is kept
it stays at its column. Carets keep their order, and a caret that was moved once is at rest: moved
again with the text that re-indenting gave, it stays where it is.
-/
namespace EditingEngine

namespace Text

lemma trimStart_eq_drop (text : Text) : text.trimStart = text.drop text.leadingBlanks := by
  have hlength : text.leadingBlanks = (text.takeWhile isBlank).length := by
    have htext : text.takeWhile isBlank ++ text.dropWhile isBlank = text :=
      List.takeWhile_append_dropWhile
    have hsum := congrArg List.length htext
    rw [List.length_append] at hsum
    rw [leadingBlanks, trimStart]
    omega
  rw [hlength, drop_length_takeWhile]
  rfl

/-- The content of a line stands behind its leading blanks. -/
lemma getElem?_leadingBlanks_add {text : Text} {i : Nat} (hi : i < text.trim.length) :
    text[text.leadingBlanks + i]? = text.trim[i]? := by
  obtain ⟨run, hrun, -⟩ := dropTrailing_prefix isBlank text.trimStart
  change text.trimStart = text.trim ++ run at hrun
  calc
    text[text.leadingBlanks + i]?
    _ = (text.drop text.leadingBlanks)[i]? := List.getElem?_drop.symm
    _ = text.trim[i]? := by rw [← trimStart_eq_drop, hrun, List.getElem?_append_left hi]

lemma leadingBlanks_add_lt {line : Text} {i : Nat} (hi : i < line.trim.length) :
    line.leadingBlanks + i < line.length := by
  have hchar := getElem?_leadingBlanks_add hi
  rw [List.getElem?_eq_getElem hi] at hchar
  exact (List.getElem?_eq_some_iff.mp hchar).1

/-- The index that a column of a line has in its trimmed content, if a character of the content is
there. -/
def contentIndex? (line : Text) (column : Nat) : Option Nat :=
  if line.leadingBlanks ≤ column ∧ column < line.leadingBlanks + line.trim.length then
    some (column - line.leadingBlanks)
  else none

lemma contentIndex?_eq_some_iff {line : Text} {column i : Nat} :
    line.contentIndex? column = some i ↔
      column = line.leadingBlanks + i ∧ i < line.trim.length := by
  unfold contentIndex?
  split
  · next h =>
    rw [Option.some.injEq]
    omega
  · next h =>
    simp only [reduceCtorEq, false_iff, not_and]
    omega

/-- What is at an offset in the content of its line is what is at its index there. -/
lemma getElem?_of_contentIndex? {text line : Text} {offset i : Nat}
    (hline : text.lines[(text.place offset).line]? = some line)
    (hi : line.contentIndex? (text.place offset).column = some i) :
    text[offset]? = line.trim[i]? ∧ i < line.trim.length := by
  obtain ⟨hcolumn, hlt⟩ := contentIndex?_eq_some_iff.mp hi
  refine ⟨?_, hlt⟩
  rw [← getElem?_offsetOf_place, offsetOf, hcolumn,
    getElem?_startOfLine_add hline (leadingBlanks_add_lt hlt), getElem?_leadingBlanks_add hlt]

end Text

@[simp] lemma leadingBlanks_tabs_append_trim (n : Nat) (line : Text) :
    Text.leadingBlanks (tabs n ++ line.trim) = n := by
  have hblank : ∀ c ∈ tabs n, Text.isBlank c = true := by
    intro c hc
    rw [List.eq_of_mem_replicate hc]
    decide
  have hstart : Text.trimStart (tabs n ++ line.trim) = line.trim := by
    rw [Text.trimStart, List.dropWhile_append_of_pos hblank]
    exact line.trimStart_trim
  rw [Text.leadingBlanks, hstart, List.length_append, length_tabs, Nat.add_sub_cancel]

lemma LineLayout.moveColumn_mono (l : LineLayout) {first second : Nat} (h : first ≤ second) :
    l.moveColumn first ≤ l.moveColumn second := by
  cases l with
  | blank => exact Nat.le_refl 0
  | verbatim line =>
    simp only [moveColumn]
    omega
  | indented blanks n content =>
    simp only [moveColumn]
    omega

namespace Pass

variable (p : Pass) (lang : Language) (line : Text)

/-- A column in the content keeps its index there. -/
lemma contentIndex?_moveColumn {column i : Nat} (h : line.contentIndex? column = some i) :
    (p.layout lang line).render.contentIndex? ((p.layout lang line).moveColumn column) =
      some i := by
  obtain ⟨rfl, hi⟩ := Text.contentIndex?_eq_some_iff.mp h
  have hblank : line.trim ≠ [] := List.ne_nil_of_length_pos (Nat.zero_lt_of_lt hi)
  rw [Text.contentIndex?_eq_some_iff, trim_render_layout]
  refine ⟨?_, hi⟩
  by_cases hcomment : p.state.inComment = true
  · have hinside := Text.leadingBlanks_add_lt hi
    simp [layout, hblank, hcomment, LineLayout.render, LineLayout.moveColumn]
    omega
  · simp [layout, hblank, hcomment, LineLayout.render, LineLayout.moveColumn]
    omega

/-- A column that was moved is where the written line would have it moved to. -/
lemma moveColumn_moveColumn (column : Nat) :
    (p.layout lang (p.layout lang line).render).moveColumn
        ((p.layout lang line).moveColumn column) =
      (p.layout lang line).moveColumn column := by
  by_cases hblank : line.trim = []
  · simp [layout, hblank, LineLayout.render, LineLayout.moveColumn]
  · by_cases hcomment : p.state.inComment = true
    · simp [layout, hblank, hcomment, LineLayout.render, LineLayout.moveColumn]
    · simp [layout, hblank, hcomment, LineLayout.render, LineLayout.moveColumn]

/-- A pass goes over written lines as over the lines they were written for. -/
lemma after_take_render_layouts (lines : List Text) (k : Nat) :
    p.after lang (((p.layouts lang lines).map LineLayout.render).take k) =
      p.after lang (lines.take k) := by
  induction lines generalizing p k with
  | nil => rfl
  | cons line rest ih =>
    cases k with
    | zero => rfl
    | succ k =>
      have hnext : p.next lang (p.layout lang line).render = p.next lang line :=
        p.next_congr lang (p.trim_render_layout lang line)
      have hrest := ih (p.next lang line) k
      simp only [layouts, after, List.map_cons, List.take_succ_cons, List.foldl_cons,
        hnext] at hrest ⊢
      exact hrest

end Pass

@[simp] lemma passAt_reindent (lang : Language) (text : Text) (k : Nat) :
    passAt lang (reindent lang text) k = passAt lang text k := by
  rw [passAt, lines_reindent, layouts, Pass.after_take_render_layouts]
  rfl

@[simp] lemma numLines_reindent (lang : Language) (text : Text) :
    (reindent lang text).numLines = text.numLines := by
  rw [← Text.length_lines, ← Text.length_lines, lines_reindent]
  simp [layouts]

lemma writtenLength_eq_sum (ls : List LineLayout) :
    writtenLength ls = ((ls.map LineLayout.render).map (·.length + 1)).sum := by
  induction ls with
  | nil => rfl
  | cons l rest ih => simp [writtenLength, ih]

lemma getElem?_lines_reindent_of (lang : Language) {text line : Text} {k : Nat}
    (hline : text.lines[k]? = some line) : (reindent lang text).lines[k]? =
      some ((passAt lang text k).layout lang line).render := by
  rw [getElem?_lines_reindent, hline, Option.map_some]

section Place

variable (lang : Language) {text line : Text} {offset : Nat}
variable (hline : text.lines[(text.place offset).line]? = some line)
include hline

/-- The caret is put on its line, at the column that the layout of the line moves it to. -/
lemma reindentedOffset_eq : reindentedOffset lang text offset =
    (reindent lang text).startOfLine (text.place offset).line +
      ((passAt lang text (text.place offset).line).layout lang line).moveColumn
        (text.place offset).column := by
  have hlayout : (layouts lang text)[(text.place offset).line]? =
      some ((passAt lang text (text.place offset).line).layout lang line) := by
    rw [layouts, Pass.getElem?_layouts, hline]
    rfl
  have hk : (text.place offset).line < (reindent lang text).numLines := by
    rw [numLines_reindent]
    exact text.place_line_lt offset
  rw [Text.startOfLine_eq_sum hk, lines_reindent, ← List.map_take, ← writtenLength_eq_sum]
  simp [reindentedOffset, hlayout]

lemma place_reindentedOffset :
    (reindent lang text).place (reindentedOffset lang text offset) =
      ⟨(text.place offset).line,
        ((passAt lang text (text.place offset).line).layout lang line).moveColumn
          (text.place offset).column⟩ := by
  have hwritten := getElem?_lines_reindent_of lang hline
  rw [reindentedOffset_eq lang hline]
  apply Text.place_startOfLine_add (Text.lt_numLines hwritten)
  rw [Text.lineSize_eq_length hwritten]
  exact LineLayout.moveColumn_le _ _

end Place

/-- A caret in a re-indented text that followed what is at an offset of the text: on the same line,
at the same index of its content, or at the same column if the line is kept as it is. -/
structure CaretFollows (lang : Language) (text : Text) (offset caret : Nat) : Prop where
  le_length : caret ≤ (reindent lang text).length
  line_eq : ((reindent lang text).place caret).line = (text.place offset).line
  in_content : ∀ line w i, text.lines[(text.place offset).line]? = some line →
    (reindent lang text).lines[(text.place offset).line]? = some w →
    line.contentIndex? (text.place offset).column = some i →
    w.contentIndex? ((reindent lang text).place caret).column = some i ∧
      ∃ c, text[offset]? = some c ∧ (reindent lang text)[caret]? = some c
  on_kept : ∀ line, text.lines[(text.place offset).line]? = some line → line.trim ≠ [] →
    (passAt lang text (text.place offset).line).state.inComment = true →
    ((reindent lang text).place caret).column = (text.place offset).column ∧
      (reindent lang text)[caret]? = text[offset]?

lemma caretFollows_reindentedOffset (lang : Language) (text : Text) (offset : Nat) :
    CaretFollows lang text offset (reindentedOffset lang text offset) := by
  have hplace := place_reindentedOffset lang (text.getElem?_place offset)
  refine ⟨?_, by rw [hplace], ?_, ?_⟩
  · have hoffset := (reindent lang text).startOfLine_add_column (reindentedOffset lang text offset)
    rw [hplace, ← reindentedOffset_eq lang (text.getElem?_place offset)] at hoffset
    omega
  · intro line w i hline hw hi
    have hcaret := place_reindentedOffset lang hline
    obtain rfl : ((passAt lang text (text.place offset).line).layout lang line).render = w := by
      rw [getElem?_lines_reindent_of lang hline] at hw
      exact Option.some.inj hw
    have hmoved := (passAt lang text (text.place offset).line).contentIndex?_moveColumn lang line hi
    obtain ⟨hchar, hlt⟩ := Text.getElem?_of_contentIndex? hline hi
    have hwritten := (Text.getElem?_of_contentIndex? (by rw [hcaret]; exact hw)
      (by rw [hcaret]; exact hmoved)).1
    rw [Pass.trim_render_layout, ← hchar] at hwritten
    rw [List.getElem?_eq_getElem hlt] at hchar
    refine ⟨?_, _, hchar, hwritten.trans hchar⟩
    rw [hcaret]
    exact hmoved
  · intro line hline hvisible hcomment
    have hcaret := place_reindentedOffset lang hline
    have hlayout : (passAt lang text (text.place offset).line).layout lang line =
        .verbatim line := by simp [Pass.layout, hvisible, hcomment]
    have hcolumn : (text.place offset).column ≤ line.length := by
      rw [← Text.lineSize_eq_length hline]
      exact text.column_place_le offset
    have hw : (reindent lang text).lines[(text.place offset).line]? = some line := by
      rw [getElem?_lines_reindent_of lang hline, hlayout]
      rfl
    rw [hlayout, LineLayout.moveColumn, Nat.min_eq_left hcolumn] at hcaret
    refine ⟨by rw [hcaret], ?_⟩
    rw [← Text.getElem?_offsetOf_place, hcaret, ← text.getElem?_offsetOf_place]
    exact Text.getElem?_startOfLine_congr hline hw (numLines_reindent lang text) hcolumn

/-- Carets keep their order. -/
lemma reindentedOffset_mono (lang : Language) (text : Text) {first second : Nat}
    (h : first ≤ second) :
    reindentedOffset lang text first ≤ reindentedOffset lang text second := by
  have hfirst := reindentedOffset_eq lang (text.getElem?_place first)
  have hsecond := reindentedOffset_eq lang (text.getElem?_place second)
  -- On different lines the written lines keep the carets apart, on one line the columns do.
  rcases Nat.lt_or_eq_of_le (text.line_place_mono h) with hlt | heq
  · have hbelow : (text.place second).line < (reindent lang text).numLines := by
      rw [numLines_reindent]
      exact text.place_line_lt second
    have hend := Text.startOfLine_add_lineSize_lt hlt hbelow
    have hsize := Text.column_place_le (reindent lang text) (reindentedOffset lang text first)
    rw [place_reindentedOffset lang (text.getElem?_place first)] at hsize
    dsimp only at hsize
    omega
  · have hline : text.inFront first ++ text.behind first =
        text.inFront second ++ text.behind second := by
      have hf := text.getElem?_place first
      rw [heq, text.getElem?_place second] at hf
      exact (Option.some.inj hf).symm
    have hcolumns : (text.place first).column ≤ (text.place second).column := by
      have hf := text.startOfLine_add_column first
      have hs := text.startOfLine_add_column second
      rw [heq] at hf
      omega
    rw [heq, hline] at hfirst
    have hmoved := LineLayout.moveColumn_mono ((passAt lang text (text.place second).line).layout
      lang (text.inFront second ++ text.behind second)) hcolumns
    omega

/-- A caret that was moved once is at rest. -/
lemma reindentedOffset_reindentedOffset (lang : Language) (text : Text) (offset : Nat) :
    reindentedOffset lang (reindent lang text) (reindentedOffset lang text offset) =
      reindentedOffset lang text offset := by
  have hline := text.getElem?_place offset
  have hplace := place_reindentedOffset lang hline
  have hwritten := getElem?_lines_reindent_of lang hline
  rw [reindentedOffset_eq lang (by rw [hplace]; exact hwritten), hplace, reindent_reindent,
    passAt_reindent, Pass.moveColumn_moveColumn, ← reindentedOffset_eq lang hline]

/-- Wherever the caret is put, it follows what is under it when the text is re-indented; carets keep
their order, and re-indenting the outcome again changes neither the text nor the caret. -/
theorem reindentedOffset_follows (lang : Language) (text : Text) (offset : Nat) :
    let caret := reindentedOffset lang text offset
    CaretFollows lang text offset caret ∧
    (∀ second, offset ≤ second → caret ≤ reindentedOffset lang text second) ∧
    reindent lang (reindent lang text) = reindent lang text ∧
    reindentedOffset lang (reindent lang text) caret = caret := by
  refine ⟨caretFollows_reindentedOffset lang text offset, ?_, reindent_reindent lang text,
    reindentedOffset_reindentedOffset lang text offset⟩
  exact fun second h => reindentedOffset_mono lang text h

/-- The semicolon of a line that gets one tab for its two spaces, and the letter of the line below,
which is kept since it is in a comment. -/
theorem reindentedOffset_follows_comment :
    let text : Text := "f(\n  x; /*\n  y */ \n)".toList
    let written : Text := reindent .javaScript text
    let first := reindentedOffset .javaScript text 6
    let second := reindentedOffset .javaScript text 13
    (∃ c, text[6]? = some c ∧ written[first]? = some c) ∧
      (written.place second).column = (text.place 13).column ∧ written[second]? = text[13]? ∧
      first ≤ second := by
  intro text written first second
  obtain ⟨hfirst, hordered, -⟩ := reindentedOffset_follows .javaScript text 6
  have hsecond := (reindentedOffset_follows .javaScript text 13).1
  have hcontent := hfirst.in_content "  x; /*".toList "\tx; /*".toList 1 (by decide) (by decide)
    (by decide)
  have hkept := hsecond.on_kept "  y */ ".toList (by decide) (by decide) (by decide)
  exact ⟨hcontent.2, hkept.1, hkept.2, hordered 13 (by decide)⟩

end EditingEngine
