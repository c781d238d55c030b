import EditingEngine.Proofs.Lexical.OpenStates
import EditingEngine.Proofs.Text.Trimming

/-!
# Blanks at the edges of a line

In most languages blanks have no meaning of their own: they stand in no marker and are no
quote, escape or bracket. Reading a blank then leaves everything open as it was, and no
marker that starts in a line can reach into the blanks at its end. So a line has the same
brackets, and leaves the same behind, as what is left of it when it is trimmed.
-/
namespace EditingEngine

/-- A language that gives blanks no meaning. -/
structure Language.IgnoresBlanks (lang : Language) : Prop where
  line : ∀ marker, lang.comments.line? = some marker → ∀ c ∈ marker, Text.isBlank c = false
  block : ∀ first last, lang.comments.block? = some (first, last) →
    ∀ c ∈ first ++ last, Text.isBlank c = false
  quotes : ∀ c ∈ lang.quotes, Text.isBlank c = false
  escape : ∀ c, lang.escape = some c → Text.isBlank c = false
  brackets : ∀ p ∈ lang.indentPairs, Text.isBlank p.opener = false ∧ Text.isBlank p.closer = false

/-- Two readings that have the same brackets on balance and leave the same open. -/
structure LineReading.SameEffect (a b : LineReading) : Prop where
  exitState_eq : a.exitState = b.exitState
  depthChange_eq : a.depthChange = b.depthChange

namespace LineReading.SameEffect

variable {a b c : LineReading}

lemma refl (a : LineReading) : a.SameEffect a := ⟨rfl, rfl⟩

lemma trans (h : a.SameEffect b) (h' : b.SameEffect c) : a.SameEffect c :=
  ⟨h.exitState_eq.trans h'.exitState_eq, h.depthChange_eq.trans h'.depthChange_eq⟩

/-- The same character in front, at whatever index. -/
lemma cons (h : a.SameEffect b) (i j : Nat) (r : CharReading) :
    (LineReading.cons i r a).SameEffect (LineReading.cons j r b) :=
  ⟨h.exitState_eq, by simp only [LineReading.cons, h.depthChange_eq]⟩

/-- A character that is no bracket in front of one of them. -/
lemma cons_left (h : a.SameEffect b) (i : Nat) {r : CharReading} (hr : r.bracket = none) :
    (LineReading.cons i r a).SameEffect b :=
  ⟨h.exitState_eq, by simp [LineReading.cons, hr, h.depthChange_eq]⟩

end LineReading.SameEffect

namespace Language

open Text
open CommentMarkers (mem_inUse)

theorem javaScript_ignoresBlanks : javaScript.IgnoresBlanks where
  line := by
    rintro _ ⟨⟩
    exact List.forall_iff_forall_mem.mp (by decide)
  block := by
    rintro _ _ ⟨⟩
    exact List.forall_iff_forall_mem.mp (by decide)
  quotes := List.forall_iff_forall_mem.mp (by decide)
  escape := by
    rintro _ ⟨⟩
    decide
  brackets := by decide

variable {lang : Language}

/-- The index of a character has no effect but on where its bracket is noted. -/
lemma sameEffect_index (cursor : Cursor) (i j : Nat) (text : Text) :
    (lang.readFrom cursor i text).SameEffect (lang.readFrom cursor j text) := by
  induction text generalizing cursor i j with
  | nil => exact .refl _
  | cons c rest ih => exact (ih _ (i + 1) (j + 1)).cons i j _

/-- A marker without blanks does not reach into the blanks behind a text. -/
lemma isPrefixOf_append_blanks {marker text blanks : Text}
    (hmarker : ∀ c ∈ marker, isBlank c = false) (hblanks : ∀ c ∈ blanks, isBlank c = true) :
    marker.isPrefixOf (text ++ blanks) = marker.isPrefixOf text := by
  induction marker generalizing text with
  | nil => rfl
  | cons m marker ih =>
    rw [List.forall_mem_cons] at hmarker
    cases text with
    | cons c text => simp only [List.cons_append, List.isPrefixOf_cons_cons, ih hmarker.2]
    | nil =>
      cases blanks with
      | nil => rfl
      | cons b blanks =>
        have hne : m ≠ b := by
          rintro rfl
          simp [hmarker.1] at hblanks
        simp [List.isPrefixOf, hne]

variable (hlang : lang.IgnoresBlanks)
include hlang

lemma isBlank_of_mem_inUse : ∀ marker ∈ lang.comments.inUse, ∀ c ∈ marker, isBlank c = false := by
  intro marker hmarker
  rcases mem_inUse.mp hmarker with hline | ⟨first, last, hblock, hmem⟩
  · exact hlang.line marker hline
  · have hvisible := hlang.block first last hblock
    rw [List.forall_mem_append] at hvisible
    rcases hmem with rfl | rfl
    · exact hvisible.1
    · exact hvisible.2

/-- No comment starts or ends differently for the blanks behind a text. -/
lemma readChar_append_blanks {blanks : Text} (hblanks : ∀ c ∈ blanks, isBlank c = true)
    (cursor : Cursor) (c : Char) (rest : Text) :
    lang.readChar cursor c (rest ++ blanks) = lang.readChar cursor c rest := by
  apply readChar_congr
  intro marker hmarker
  rw [← List.cons_append]
  exact isPrefixOf_append_blanks (isBlank_of_mem_inUse hlang marker hmarker) hblanks

/-- No marker stands at a blank. -/
lemma markers_at_blank {c : Char} (hc : isBlank c = true) (rest : Text) :
    lang.comments.startsLine (c :: rest) = false ∧
      lang.comments.blockStartAt? (c :: rest) = none ∧
      lang.comments.blockEndAt? (c :: rest) = none := by
  have habsent : ∀ marker ∈ lang.comments.inUse, ¬ marker <+: c :: rest := by
    intro marker hmarker
    have hne := CommentMarkers.ne_nil_of_mem_inUse hmarker
    refine CommentMarkers.not_prefix_cons_of_head?_ne hne (fun hhead => ?_) rest
    have hvisible := isBlank_of_mem_inUse hlang marker hmarker c (List.mem_of_head? hhead)
    simp [hc] at hvisible
  refine ⟨CommentMarkers.startsLine_eq_false ?_, CommentMarkers.blockStartAt?_eq_none ?_,
    CommentMarkers.blockEndAt?_eq_none ?_⟩
  · exact fun marker hline => habsent marker (mem_inUse.mpr (Or.inl hline))
  · exact fun first last hblock => habsent first (mem_inUse.mpr (Or.inr ⟨_, _, hblock, Or.inl rfl⟩))
  · exact fun first last hblock => habsent last (mem_inUse.mpr (Or.inr ⟨_, _, hblock, Or.inr rfl⟩))

lemma isOpener_blank {c : Char} (hc : isBlank c = true) : lang.isOpener c = false := by
  refine List.any_eq_false.mpr fun p hp heq => ?_
  simp [← beq_iff_eq.mp heq, (hlang.brackets p hp).1] at hc

lemma isCloser_blank {c : Char} (hc : isBlank c = true) : lang.isCloser c = false := by
  refine List.any_eq_false.mpr fun p hp heq => ?_
  simp [← beq_iff_eq.mp heq, (hlang.brackets p hp).2] at hc

lemma side?_blank {c : Char} (hc : isBlank c = true) : lang.side? c = none := by
  simp [side?, isOpener_blank hlang hc, isCloser_blank hlang hc]

/-- A blank is no bracket and opens and closes nothing. -/
lemma Reads.of_blank {cursor : Cursor} {c : Char} {rest : Text} {r : CharReading}
    (h : lang.Reads c rest cursor r) (hq : cursor.state.HasQuoteOf lang) (hc : isBlank c = true) :
    r.bracket = none ∧ r.next.state = cursor.state ∧
      (cursor.mode = .free → r.next.mode = .free) := by
  obtain ⟨hline, hstart, hend⟩ := markers_at_blank hlang hc rest
  have hvisible : isBlank c ≠ false := by simp [hc]
  cases h with
  | inLineComment | inMarker | escaped => exact ⟨rfl, rfl, by simp⟩
  | inString | inComment => exact ⟨rfl, rfl, fun _ => rfl⟩
  | code => exact ⟨side?_blank hlang hc, rfl, fun _ => rfl⟩
  | escape hescape => exact absurd (hlang.escape c hescape) hvisible
  | stringEnd => exact absurd (hlang.quotes c (hq c rfl)) hvisible
  | stringStart _ _ hquote =>
    exact absurd (hlang.quotes c (by simpa [isQuote] using hquote)) hvisible
  | commentEnd hmarker => simp [hend] at hmarker
  | lineStart hmarker => simp [hline] at hmarker
  | commentStart _ hmarker => simp [hstart] at hmarker

/-- Blanks in front of a text are passed over, unless the reading stands within a marker or behind
an escape. -/
lemma readFrom_blanks_append {blanks : Text} (hblanks : ∀ c ∈ blanks, isBlank c = true)
    {s : LineState} (hs : s.HasQuoteOf lang) (i j : Nat) (text : Text) :
    (lang.readFrom ⟨s, .free⟩ i (blanks ++ text)).SameEffect (lang.readFrom ⟨s, .free⟩ j text) := by
  induction blanks generalizing i with
  | nil => exact sameEffect_index _ i j text
  | cons c blanks ih =>
    rw [List.forall_mem_cons] at hblanks
    obtain ⟨hbracket, hstate, hmode⟩ :=
      (lang.reads_readChar ⟨s, .free⟩ c (blanks ++ text)).of_blank hlang hs hblanks.1
    have hnext : (lang.readChar ⟨s, .free⟩ c (blanks ++ text)).next = ⟨s, .free⟩ := by
      calc
        _ = Cursor.mk _ _ := rfl
        _ = ⟨s, .free⟩ := by rw [hstate, hmode rfl]
    rw [List.cons_append, readFrom_cons, hnext]
    exact (ih hblanks.2 (i + 1)).cons_left i hbracket

/-- However the reading stands, blanks up to the end of the line have no effect. -/
lemma readFrom_blanks {blanks : Text} (hblanks : ∀ c ∈ blanks, isBlank c = true)
    {cursor : Cursor} (hq : cursor.state.HasQuoteOf lang) (i : Nat) :
    (lang.readFrom cursor i blanks).SameEffect (.empty cursor.state) := by
  induction blanks generalizing cursor i with
  | nil => exact .refl _
  | cons c blanks ih =>
    rw [List.forall_mem_cons] at hblanks
    obtain ⟨hbracket, hstate, _⟩ :=
      (lang.reads_readChar cursor c blanks).of_blank hlang hq hblanks.1
    have hrest := ih hblanks.2 (hasQuoteOf_readChar hq c blanks) (i + 1)
    rw [hstate] at hrest
    exact hrest.cons_left i hbracket

lemma readFrom_append_blanks {blanks : Text} (hblanks : ∀ c ∈ blanks, isBlank c = true)
    {cursor : Cursor} (hq : cursor.state.HasQuoteOf lang) (i : Nat) (text : Text) :
    (lang.readFrom cursor i (text ++ blanks)).SameEffect (lang.readFrom cursor i text) := by
  induction text generalizing cursor i with
  | nil => exact readFrom_blanks hlang hblanks hq i
  | cons c text ih =>
    rw [List.cons_append, readFrom_cons, readFrom_cons, readChar_append_blanks hlang hblanks]
    exact (ih (hasQuoteOf_readChar hq c text) (i + 1)).cons i i _

/-- A line and its trimmed content have the same brackets and leave the same open. -/
theorem readLine_trim {s : LineState} (hs : s.HasQuoteOf lang) (line : Text) :
    (lang.readLine s line).SameEffect (lang.readLine s line.trim) := by
  obtain ⟨front, back, hline, hfront, hback⟩ := exists_blanks_trim line
  have hstart := readFrom_blanks_append hlang hfront hs 0 0 (line.trim ++ back)
  rw [← hline] at hstart
  exact hstart.trans (readFrom_append_blanks hlang hback hs 0 line.trim)

end Language
end EditingEngine
