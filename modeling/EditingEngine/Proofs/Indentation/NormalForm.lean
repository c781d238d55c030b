import EditingEngine.Indentation.Reindent
import EditingEngine.Proofs.Text.Trimming
import Mathlib.Data.List.Basic

/-!
# Re-indenting as a normal form

A pass reads a line only through its trimmed content, so it carries the same level
and state past any two lines with equal content, and writes them alike unless it
enters them inside a block comment. Followed through all lines, this says when two
texts are re-indented to the same text: when they have the same lines but for blanks
at the edges and lines of block comments agree to the letter. A re-indented text is
such a text for the one it came from, so re-indenting it again changes nothing.
-/
namespace EditingEngine

@[simp] theorem trim_tabs_append (n : Nat) (text : Text) : (tabs n ++ text).trim = text.trim := by
  apply Text.trim_append_of_blank
  intro c hc
  rw [List.eq_of_mem_replicate hc]
  decide

namespace Pass

/-- Two lines that are written alike from the same pass: they differ at most in the blanks at
their edges, and not at all if they are kept as they are. -/
def WritesAlike (p : Pass) (a b : Text) : Prop :=
  a.trim = b.trim ∧ (p.state.inComment = true → a.trim ≠ [] → a = b)

lemma next_congr (p : Pass) (lang : Language) {a b : Text} (h : a.trim = b.trim) :
    p.next lang a = p.next lang b := by
  simp only [next, h]

/-- Nothing but edge blanks is added or lost when a line is written. -/
@[simp] theorem trim_render_layout (p : Pass) (lang : Language) (line : Text) :
    (p.layout lang line).render.trim = line.trim := by
  unfold layout
  by_cases hblank : line.trim = []
  · simp [hblank, LineLayout.render]
  · by_cases hcomment : p.state.inComment = true
    · simp [hblank, hcomment, LineLayout.render]
    · simp [hblank, hcomment, LineLayout.render]

theorem render_layout_eq_iff (p : Pass) (lang : Language) (a b : Text) :
    (p.layout lang a).render = (p.layout lang b).render ↔ p.WritesAlike a b := by
  constructor
  · intro h
    have htrim : a.trim = b.trim := by
      have hh := congrArg Text.trim h
      simpa using hh
    refine ⟨htrim, ?_⟩
    intro hcomment hne
    have hne' : b.trim ≠ [] := htrim ▸ hne
    simpa [layout, hne, hne', hcomment, LineLayout.render] using h
  · rintro ⟨htrim, hraw⟩
    by_cases hblank : a.trim = []
    · simp [layout, ← htrim, hblank, LineLayout.render]
    · by_cases hcomment : p.state.inComment = true
      · rw [hraw hcomment hblank]
      · simp [layout, ← htrim, hblank, hcomment, LineLayout.render]

theorem line_feed_notMem_render_layout (p : Pass) (lang : Language) {line : Text}
    (h : '\n' ∉ line) : '\n' ∉ (p.layout lang line).render := by
  have htrim : '\n' ∉ line.trim := fun hmem => h (Text.mem_of_mem_trim hmem)
  have htabs : ∀ n, '\n' ∉ tabs n := by simp [tabs]
  unfold layout
  by_cases hblank : line.trim = []
  · simp [hblank, LineLayout.render]
  · by_cases hcomment : p.state.inComment = true
    · simp [hblank, hcomment, LineLayout.render, h]
    · simp [hblank, hcomment, LineLayout.render, htrim, htabs]

/-- A written line stands for the line it was written for. -/
theorem writesAlike_render_layout (p : Pass) (lang : Language) (line : Text) :
    p.WritesAlike line (p.layout lang line).render := by
  refine ⟨by simp, ?_⟩
  intro hcomment hne
  simp [layout, hne, hcomment, LineLayout.render]

/-- Every line is laid out by the pass as it stands behind the lines before. -/
theorem getElem?_layouts (p : Pass) (lang : Language) (lines : List Text) (i : Nat) :
    (p.layouts lang lines)[i]? =
      lines[i]?.map fun line => (p.after lang (lines.take i)).layout lang line := by
  induction lines generalizing p i with
  | nil => simp [layouts]
  | cons line rest ih =>
    cases i with
    | zero => simp [layouts, after]
    | succ i => simpa [layouts, after] using ih (p.next lang line) i

/-- Two runs of a pass side by side: each pair of lines sends both on to the same pass, so the
pass in front of a pair can be computed from either side. -/
theorem map_render_layouts_eq_iff (p : Pass) (lang : Language) (as bs : List Text) :
    (p.layouts lang as).map LineLayout.render = (p.layouts lang bs).map LineLayout.render ↔
      as.length = bs.length ∧ ∀ i a b, as[i]? = some a → bs[i]? = some b →
        (p.after lang (as.take i)).WritesAlike a b := by
  induction as generalizing p bs with
  | nil => cases bs <;> simp [layouts]
  | cons a as ih =>
    cases bs with
    | nil => simp [layouts]
    | cons b bs =>
      constructor
      · intro h
        simp only [layouts, List.map_cons, List.cons.injEq] at h
        obtain ⟨hhead, htail⟩ := h
        have hab := (p.render_layout_eq_iff lang a b).mp hhead
        rw [← p.next_congr lang hab.1] at htail
        obtain ⟨hlength, hlines⟩ := (ih (p.next lang a) bs).mp htail
        refine ⟨by simp [hlength], ?_⟩
        intro i c d hc hd
        cases i with
        | zero =>
          obtain ⟨rfl, rfl⟩ : a = c ∧ b = d := by simpa using And.intro hc hd
          exact hab
        | succ i => exact hlines i c d hc hd
      · rintro ⟨hlength, hlines⟩
        have hab : p.WritesAlike a b := hlines 0 a b rfl rfl
        have htail := (ih (p.next lang a) bs).mpr
          ⟨by simpa using hlength, fun i => hlines (i + 1)⟩
        simp only [layouts, List.map_cons, (p.render_layout_eq_iff lang a b).mpr hab,
          ← p.next_congr lang hab.1, htail]

end Pass

/-- What the pass knows in front of a line of a text. -/
def passAt (lang : Language) (text : Text) (line : Nat) : Pass :=
  Pass.start.after lang (text.lines.take line)

/-- Each line of a re-indented text is the line of the text, as the pass in front of it writes
it. None of these has a line feed. -/
theorem lines_reindent (lang : Language) (text : Text) :
    (reindent lang text).lines = (layouts lang text).map LineLayout.render := by
  apply Text.lines_ofLines
  · have hne := Text.lines_ne_nil text
    rw [← List.length_pos_iff] at hne ⊢
    simpa [layouts] using hne
  · intro written hwritten
    obtain ⟨l, hl, rfl⟩ := List.mem_map.mp hwritten
    obtain ⟨i, hi⟩ := List.mem_iff_getElem?.mp hl
    rw [layouts, Pass.getElem?_layouts, Option.map_eq_some_iff] at hi
    obtain ⟨line, hline, rfl⟩ := hi
    apply Pass.line_feed_notMem_render_layout
    exact Text.line_feed_notMem_of_mem_lines (List.mem_of_getElem? hline)

theorem getElem?_lines_reindent (lang : Language) (text : Text) (i : Nat) :
    (reindent lang text).lines[i]? =
      text.lines[i]?.map fun line => ((passAt lang text i).layout lang line).render := by
  rw [lines_reindent, List.getElem?_map, layouts, Pass.getElem?_layouts, Option.map_map]
  rfl

-- The second line opens a comment, so the third is kept with its blanks and its bracket.
example : reindent .javaScript "f(\n x/*\n  y) */\n )".toList =
    "f(\n\tx/*\n  y) */\n)".toList := by decide

/-- Two texts with the same lines but for blanks at the edges, where lines that re-indenting
enters inside a block comment are the same altogether unless they are blank. -/
structure SameButEdges (lang : Language) (x y : Text) : Prop where
  length_eq : x.lines.length = y.lines.length
  lines_alike : ∀ i a b, x.lines[i]? = some a → y.lines[i]? = some b →
    (passAt lang x i).WritesAlike a b

lemma reindent_eq_iff (lang : Language) (x y : Text) :
    reindent lang x = reindent lang y ↔ SameButEdges lang x y := by
  have hlines : reindent lang x = reindent lang y ↔
      (reindent lang x).lines = (reindent lang y).lines := by
    refine ⟨congrArg Text.lines, ?_⟩
    intro h
    rw [← Text.ofLines_lines (reindent lang x), h, Text.ofLines_lines]
  rw [hlines, lines_reindent, lines_reindent, layouts, layouts, Pass.map_render_layouts_eq_iff]
  exact ⟨fun h => ⟨h.1, h.2⟩, fun h => ⟨h.length_eq, h.lines_alike⟩⟩

/-- Re-indenting leads to a text that it does not tell apart from the one it was given. -/
lemma sameButEdges_reindent (lang : Language) (text : Text) :
    SameButEdges lang text (reindent lang text) := by
  constructor
  · simp [lines_reindent, layouts]
  · intro i a b ha hb
    rw [getElem?_lines_reindent, ha, Option.map_some, Option.some.injEq] at hb
    rw [← hb]
    exact Pass.writesAlike_render_layout _ lang a

@[simp] lemma reindent_reindent (lang : Language) (text : Text) :
    reindent lang (reindent lang text) = reindent lang text :=
  ((reindent_eq_iff lang text (reindent lang text)).mpr (sameButEdges_reindent lang text)).symm

/-- A re-indented text is the same for exactly the texts that differ in nothing but edge blanks
outside block comments, and it is one of them. -/
theorem reindent_normal_form (lang : Language) :
    (∀ x y, reindent lang x = reindent lang y ↔ SameButEdges lang x y) ∧
      ∀ x, reindent lang (reindent lang x) = reindent lang x :=
  ⟨reindent_eq_iff lang, reindent_reindent lang⟩

end EditingEngine
