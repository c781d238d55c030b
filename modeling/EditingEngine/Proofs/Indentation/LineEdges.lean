import EditingEngine.Proofs.Indentation.NormalForm

/-!
# What re-indenting leaves alone

Re-indenting writes every line by itself, and changes none but at its edges: a blank line loses
its blanks, a line that is entered inside a block comment stays as it is, and every other line is
trimmed and gets tabs in front. So nobody's code is lost: without their blanks the old text and
the new one are the same, character by character.
-/
namespace EditingEngine

/-- A line as it may be written when only its edges change, whether it is entered inside a block
comment or not. -/
inductive WrittenAs (inComment : Bool) (line : Text) : Text → Prop where
  | emptied (hblank : ∀ c ∈ line, Text.isBlank c = true) : WrittenAs inComment line []
  | kept (hcomment : inComment = true) (hvisible : ∃ c ∈ line, Text.isBlank c = false) :
    WrittenAs inComment line line
  | indented (hcode : inComment = false) (hvisible : ∃ c ∈ line, Text.isBlank c = false)
    (n : Nat) : WrittenAs inComment line (tabs n ++ line.trim)

/-- The three ways are those of a pass. -/
lemma writtenAs_render_layout (p : Pass) (lang : Language) (line : Text) :
    WrittenAs p.state.inComment line (p.layout lang line).render := by
  by_cases hblank : line.trim = []
  · have hrender : (p.layout lang line).render = [] := by
      simp [Pass.layout, hblank, LineLayout.render]
    rw [hrender]
    exact .emptied (Text.trim_eq_nil_iff.mp hblank)
  · have hvisible : ∃ c ∈ line, Text.isBlank c = false := by
      by_contra hnone
      exact hblank (Text.trim_eq_nil_iff.mpr (by simpa using hnone))
    cases hcomment : p.state.inComment with
    | true =>
      have hrender : (p.layout lang line).render = line := by
        simp [Pass.layout, hblank, hcomment, LineLayout.render]
      rw [hrender]
      exact .kept rfl hvisible
    | false =>
      have hrender : (p.layout lang line).render =
          tabs (p.levelOf lang line.trim) ++ line.trim := by
        simp [Pass.layout, hblank, hcomment, LineLayout.render]
      rw [hrender]
      exact .indented rfl hvisible _

lemma visible_render_layout (p : Pass) (lang : Language) (line : Text) :
    (p.layout lang line).render.visible = line.visible := by
  calc
    (p.layout lang line).render.visible
    _ = (p.layout lang line).render.trim.visible := (Text.visible_trim _).symm
    _ = line.visible := by rw [Pass.trim_render_layout, Text.visible_trim]

/-- Line feeds are blanks, so what is visible in a text is what is visible in its lines. -/
lemma visible_ofLines (lines : List Text) :
    (Text.ofLines lines).visible = (lines.map Text.visible).flatten := by
  induction lines with
  | nil => rfl
  | cons line rest ih =>
    cases rest with
    | nil => simp [Text.ofLines]
    | cons second rest =>
      have hfeed : Text.visible ('\n' :: Text.ofLines (second :: rest)) =
          (Text.ofLines (second :: rest)).visible :=
        List.filter_cons_of_neg (by decide)
      rw [Text.ofLines_cons_cons, Text.visible_append, hfeed, ih]
      simp

lemma map_visible_layouts (p : Pass) (lang : Language) (lines : List Text) :
    ((p.layouts lang lines).map LineLayout.render).map Text.visible = lines.map Text.visible := by
  induction lines generalizing p with
  | nil => rfl
  | cons line rest ih =>
    have hrest := ih (p.next lang line)
    simp only [Pass.layouts, List.map_cons, visible_render_layout, hrest]

/-- Re-indenting writes every line of a text in its place, empty if it is blank, as it was if it is
entered inside a block comment, and otherwise trimmed behind some tabs. So both texts are the same
but for blanks. -/
theorem reindent_changes_edges (lang : Language) (text : Text) :
    let written := reindent lang text
    written.lines.length = text.lines.length ∧
    (∀ i line, text.lines[i]? = some line → ∃ w, written.lines[i]? = some w ∧
      WrittenAs (passAt lang text i).state.inComment line w) ∧
    written.visible = text.visible := by
  intro written
  refine ⟨by simp [written, lines_reindent, layouts], ?_, ?_⟩
  · intro i line hline
    refine ⟨((passAt lang text i).layout lang line).render, ?_, writtenAs_render_layout _ _ _⟩
    rw [getElem?_lines_reindent, hline, Option.map_some]
  · calc
      written.visible
      _ = (((layouts lang text).map LineLayout.render).map Text.visible).flatten :=
        visible_ofLines _
      _ = (text.lines.map Text.visible).flatten := by rw [layouts, map_visible_layouts]
      _ = (Text.ofLines text.lines).visible := (visible_ofLines _).symm
      _ = text.visible := by rw [Text.ofLines_lines]

/-- A line of a block comment that was opened behind a no-break space, in a text whose first and
last lines are empty and whose second line ends in a carriage return. -/
theorem reindent_changes_edges_comment :
    let text : Text := "\n f( \r\n\u00a0/*\n  x )\t\n \t*/ ) \u2003\n".toList
    let line : Text := "  x )\t".toList
    text.lines[3]? = some line ∧ (passAt .javaScript text 3).state.inComment = true ∧
      (reindent .javaScript text).lines[3]? = some line := by
  intro text line
  have hline : text.lines[3]? = some line := by decide
  have hcomment : (passAt .javaScript text 3).state.inComment = true := by decide
  obtain ⟨w, hw, hwritten⟩ := (reindent_changes_edges .javaScript text).2.1 3 line hline
  refine ⟨hline, hcomment, ?_⟩
  cases hwritten with
  | emptied hblank => exact absurd (hblank 'x' (by decide)) (by decide)
  | kept => exact hw
  | indented hcode =>
    rw [hcomment] at hcode
    cases hcode

end EditingEngine
