import EditingEngine.Lexical.LineReading
import Mathlib.Tactic.Lemma

/-!
# How a character is read

There are twelve ways to read a character, by what is open in front of it, by what it is and by the
markers that start at it. They are listed once, with all that decides for them, and what is said
about any reading of a character is then said case by case. Of the text behind a character only the
markers matter that start with it.
-/
namespace EditingEngine

namespace CommentMarkers

lemma block?_eq_some {m : CommentMarkers} {first last : Text}
    (h : m.block? = some (first, last)) :
    m.blockStart = some first ∧ m.blockEnd = some last := by
  unfold block? at h
  split at h
  · next hfirst hlast =>
    cases h
    exact ⟨(Option.filter_eq_some_iff.mp hfirst).1, (Option.filter_eq_some_iff.mp hlast).1⟩
  · cases h

/-- The markers that comments are read by. -/
def inUse (m : CommentMarkers) : List Text :=
  m.line?.toList ++ m.block?.toList.flatMap fun markers => [markers.1, markers.2]

variable {m : CommentMarkers} {marker text : Text}

lemma mem_inUse : marker ∈ m.inUse ↔ m.line? = some marker ∨
    ∃ first last, m.block? = some (first, last) ∧ (marker = first ∨ marker = last) := by
  simp [inUse]

lemma ne_nil_of_mem_inUse (h : marker ∈ m.inUse) : marker ≠ [] := by
  rcases mem_inUse.mp h with hline | ⟨first, last, hblock, rfl | rfl⟩
  · exact line?_ne_nil hline
  · exact (block?_ne_nil hblock).1
  · exact (block?_ne_nil hblock).2

lemma not_prefix_cons_of_head?_ne {c : Char} (hne : marker ≠ []) (hhead : marker.head? ≠ some c)
    (rest : Text) : ¬ marker <+: c :: rest := by
  obtain ⟨d, more, rfl⟩ := List.exists_cons_of_ne_nil hne
  rintro ⟨_, ⟨⟩⟩
  exact hhead rfl

/-- A marker that is found is not empty, and there is text for all of it. -/
lemma blockStartAt?_eq_some (h : m.blockStartAt? text = some marker) :
    marker ≠ [] ∧ marker <+: text := by
  obtain ⟨hmarker, hstarts⟩ := Option.filter_eq_some_iff.mp h
  obtain ⟨markers, hblock, rfl⟩ := Option.map_eq_some_iff.mp hmarker
  exact ⟨(block?_ne_nil hblock).1, List.isPrefixOf_iff_prefix.mp hstarts⟩

lemma blockEndAt?_eq_some (h : m.blockEndAt? text = some marker) :
    marker ≠ [] ∧ marker <+: text := by
  obtain ⟨hmarker, hstarts⟩ := Option.filter_eq_some_iff.mp h
  obtain ⟨markers, hblock, rfl⟩ := Option.map_eq_some_iff.mp hmarker
  exact ⟨(block?_ne_nil hblock).2, List.isPrefixOf_iff_prefix.mp hstarts⟩

lemma startsLine_eq_false (h : ∀ marker, m.line? = some marker → ¬ marker <+: text) :
    m.startsLine text = false := by
  refine (Option.any_eq_false _ _).mpr fun marker hmarker => Bool.eq_false_iff.mpr ?_
  exact mt List.isPrefixOf_iff_prefix.mp (h marker hmarker)

lemma blockStartAt?_eq_none (h : ∀ first last, m.block? = some (first, last) → ¬ first <+: text) :
    m.blockStartAt? text = .none := by
  refine Option.filter_eq_none_iff.mpr fun marker hmarker => ?_
  obtain ⟨⟨first, last⟩, hblock, rfl⟩ := Option.map_eq_some_iff.mp hmarker
  exact mt List.isPrefixOf_iff_prefix.mp (h first last hblock)

lemma blockEndAt?_eq_none (h : ∀ first last, m.block? = some (first, last) → ¬ last <+: text) :
    m.blockEndAt? text = .none := by
  refine Option.filter_eq_none_iff.mpr fun marker hmarker => ?_
  obtain ⟨⟨first, last⟩, hblock, rfl⟩ := Option.map_eq_some_iff.mp hmarker
  exact mt List.isPrefixOf_iff_prefix.mp (h first last hblock)

end CommentMarkers

namespace Language

/-- The ways to read a character `c`, with `rest` behind it on its line. -/
inductive Reads (lang : Language) (c : Char) (rest : Text) : Cursor → CharReading → Prop
  | inLineComment (s : LineState) :
      Reads lang c rest ⟨s, .lineComment⟩ ⟨.lineComment, none, ⟨s, .lineComment⟩⟩
  | inMarker (s : LineState) (left : Nat) :
      Reads lang c rest ⟨s, .marker left⟩ ⟨.blockComment, none, ⟨s, .insideMarker left⟩⟩
  | escaped (s : LineState) : Reads lang c rest ⟨s, .escaped⟩ ⟨.string, none, ⟨s, .free⟩⟩
  | escape {quote : Char} {comment : Bool} (hescape : lang.escape = some c) :
      Reads lang c rest ⟨⟨some quote, comment⟩, .free⟩
        ⟨.string, none, ⟨⟨some quote, comment⟩, .escaped⟩⟩
  | stringEnd {comment : Bool} (hescape : lang.escape ≠ some c) :
      Reads lang c rest ⟨⟨some c, comment⟩, .free⟩ ⟨.string, none, ⟨⟨none, comment⟩, .free⟩⟩
  | inString {quote : Char} {comment : Bool} (hescape : lang.escape ≠ some c) (hquote : c ≠ quote) :
      Reads lang c rest ⟨⟨some quote, comment⟩, .free⟩
        ⟨.string, none, ⟨⟨some quote, comment⟩, .free⟩⟩
  | commentEnd {marker : Text} (hend : lang.comments.blockEndAt? (c :: rest) = some marker) :
      Reads lang c rest ⟨⟨none, true⟩, .free⟩
        ⟨.blockComment, none, ⟨.plain, .insideMarker (marker.length - 1)⟩⟩
  | inComment (hend : lang.comments.blockEndAt? (c :: rest) = none) :
      Reads lang c rest ⟨⟨none, true⟩, .free⟩ ⟨.blockComment, none, ⟨⟨none, true⟩, .free⟩⟩
  | lineStart (hline : lang.comments.startsLine (c :: rest) = true) :
      Reads lang c rest ⟨.plain, .free⟩ ⟨.lineComment, none, ⟨.plain, .lineComment⟩⟩
  | commentStart {marker : Text} (hline : lang.comments.startsLine (c :: rest) = false)
      (hstart : lang.comments.blockStartAt? (c :: rest) = some marker) :
      Reads lang c rest ⟨.plain, .free⟩
        ⟨.blockComment, none, ⟨⟨none, true⟩, .insideMarker (marker.length - 1)⟩⟩
  | stringStart (hline : lang.comments.startsLine (c :: rest) = false)
      (hstart : lang.comments.blockStartAt? (c :: rest) = none) (hquote : lang.isQuote c = true) :
      Reads lang c rest ⟨.plain, .free⟩ ⟨.string, none, ⟨⟨some c, false⟩, .free⟩⟩
  | code (hline : lang.comments.startsLine (c :: rest) = false)
      (hstart : lang.comments.blockStartAt? (c :: rest) = none) (hquote : lang.isQuote c = false) :
      Reads lang c rest ⟨.plain, .free⟩ ⟨.code, lang.side? c, ⟨.plain, .free⟩⟩

theorem reads_readChar (lang : Language) (cursor : Cursor) (c : Char) (rest : Text) :
    lang.Reads c rest cursor (lang.readChar cursor c rest) := by
  obtain ⟨⟨quote, comment⟩, mode⟩ := cursor
  cases mode with
  | lineComment => exact .inLineComment _
  | marker left => exact .inMarker _ left
  | escaped => exact .escaped _
  | free =>
    simp only [readChar]
    cases quote with
    | some quote =>
      simp only [readInString]
      split
      · next hescape => exact .escape hescape
      · next hescape =>
        split
        · next hquote =>
          subst hquote
          exact .stringEnd hescape
        · next hquote => exact .inString hescape hquote
    | none =>
      cases comment with
      | true =>
        simp only [readInComment, if_true]
        split
        · next hend => exact .commentEnd hend
        · next hend => exact .inComment hend
      | false =>
        simp only [readInCode, Bool.false_eq_true, if_false]
        split
        · next hline => exact .lineStart hline
        · next hline =>
          have hline := Bool.eq_false_iff.mpr hline
          split
          · next hstart => exact .commentStart hline hstart
          · next hstart =>
            split
            · next hquote => exact .stringStart hline hstart hquote
            · next hquote => exact .code hline hstart (Bool.eq_false_iff.mpr hquote)

variable {lang : Language}

section

variable {cursor : Cursor} {c : Char} {rest : Text} {r : CharReading}

lemma Reads.bracket_eq (h : lang.Reads c rest cursor r) :
    r.bracket = if r.kind = .code then lang.side? c else none := by
  cases h <;> rfl

lemma Reads.next_of_code (h : lang.Reads c rest cursor r) (hkind : r.kind = .code) :
    r.next = ⟨.plain, .free⟩ := by
  cases h with
  | code => rfl
  | _ => cases hkind

end

/-- Brackets are the bracket characters of the code. -/
lemma bracket_readChar (cursor : Cursor) (c : Char) (rest : Text) :
    (lang.readChar cursor c rest).bracket =
      if (lang.readChar cursor c rest).kind = .code then lang.side? c else none :=
  (lang.reads_readChar cursor c rest).bracket_eq

/-- A character is read as code only where nothing is open, and nothing is open behind it. -/
lemma readChar_code {cursor : Cursor} {c : Char} {rest : Text}
    (h : (lang.readChar cursor c rest).kind = .code) :
    (lang.readChar cursor c rest).next = ⟨.plain, .free⟩ :=
  (lang.reads_readChar cursor c rest).next_of_code h

/-- Of the text behind a character only the markers matter that start with it. -/
lemma readChar_congr {c : Char} {rest other : Text} (h : ∀ marker ∈ lang.comments.inUse,
      marker.isPrefixOf (c :: rest) = marker.isPrefixOf (c :: other)) (cursor : Cursor) :
    lang.readChar cursor c rest = lang.readChar cursor c other := by
  have hline : lang.comments.startsLine (c :: rest) = lang.comments.startsLine (c :: other) := by
    unfold CommentMarkers.startsLine
    cases hl : lang.comments.line? with
    | none => rfl
    | some marker => exact h marker (CommentMarkers.mem_inUse.mpr (Or.inl hl))
  have hblock : lang.comments.blockStartAt? (c :: rest) =
        lang.comments.blockStartAt? (c :: other) ∧
      lang.comments.blockEndAt? (c :: rest) = lang.comments.blockEndAt? (c :: other) := by
    unfold CommentMarkers.blockStartAt? CommentMarkers.blockEndAt?
    cases hb : lang.comments.block? with
    | none => exact ⟨rfl, rfl⟩
    | some markers =>
      have hfirst := h markers.1 (CommentMarkers.mem_inUse.mpr (Or.inr ⟨_, _, hb, Or.inl rfl⟩))
      have hlast := h markers.2 (CommentMarkers.mem_inUse.mpr (Or.inr ⟨_, _, hb, Or.inr rfl⟩))
      simp only [Option.map_some, Option.filter, hfirst, hlast, and_self]
  simp only [readChar, readInComment, readInCode, hline, hblock.1, hblock.2]

end Language
end EditingEngine
