import EditingEngine.Proofs.Lexical.CharReadings
import Mathlib.Algebra.Group.Nat.Even
import Mathlib.Order.Bounds.Basic

/-!
# Where strings and comments end

Reading a line keeps track of escapes and of markers that it is in the middle of. What comes out
is that a string ends at the first of its quotes with an even number of escapes in front of it,
and a block comment behind the first place where its end marker stands. Up to there all characters
belong to the literal, and what follows is read as a line of its own. A literal whose end does not
come takes all of the line and stays open.
-/
namespace EditingEngine

namespace LineReading

/-- The same reading so many characters further on in its line. -/
def shift (size : Nat) (r : LineReading) : LineReading :=
  { r with brackets := r.brackets.map fun b => (b.1 + size, b.2) }

/-- The reading with so many characters of one kind in front of it, none of which is a bracket. -/
def behind (size : Nat) (kind : CharKind) (r : LineReading) : LineReading :=
  { r.shift size with kinds := List.replicate size kind ++ r.kinds }

@[simp] theorem behind_zero (kind : CharKind) (r : LineReading) : r.behind 0 kind = r := by
  simp [behind, shift]

@[simp] theorem behind_behind (first second : Nat) (kind : CharKind) (r : LineReading) :
    (r.behind second kind).behind first kind = r.behind (first + second) kind := by
  simp [behind, shift, ← List.append_assoc, Nat.add_assoc, Nat.add_comm second]

lemma cons_shift (i : Nat) (kind : CharKind) (next : Cursor) (r : LineReading) :
    (r.shift 1).cons i ⟨kind, none, next⟩ = r.behind 1 kind := by
  simp [cons, behind, shift]

end LineReading

namespace Language

open CommentMarkers (startsLine_eq_false)

/-- The number of escapes in a row at the end of a text. -/
def escapesAtEnd (lang : Language) (front : Text) : Nat :=
  (front.reverse.takeWhile fun c => lang.escape == some c).length

/-- At the index stands the quote, and directly in front of it an even number of escapes. -/
def ClosesString (lang : Language) (quote : Char) (line : Text) (i : Nat) : Prop :=
  (line : Text)[i]? = some quote ∧ Even (lang.escapesAtEnd (line.take i))

instance (lang : Language) (quote : Char) (line : Text) (i : Nat) :
    Decidable (lang.ClosesString quote line i) :=
  inferInstanceAs (Decidable (_ ∧ _))

/-- A line that is entered inside a literal belongs to it up to and with the first of its ends, and
is read in the other state from there on. If it has no end, all of the line belongs to it. -/
structure ReadsLiteral (lang : Language) (kind : CharKind) (inside outside : LineState)
    (IsEnd : Nat → Prop) (size : Nat) (line : Text) : Prop where
  closed : ∀ i, IsLeast {j | IsEnd j} i → lang.readLine inside line =
    (lang.readLine outside (line.drop (i + size))).behind (i + size) kind
  unclosed : (∀ i, ¬ IsEnd i) →
    lang.readLine inside line = (LineReading.empty inside).behind line.length kind

variable {lang : Language}

/-- The index of the first character only moves the brackets. -/
lemma readFrom_succ (cursor : Cursor) (i : Nat) (text : Text) :
    lang.readFrom cursor (i + 1) text = (lang.readFrom cursor i text).shift 1 := by
  induction text generalizing cursor i with
  | nil => rfl
  | cons c rest ih =>
    rw [readFrom_cons, readFrom_cons, ih]
    cases h : (lang.readChar cursor c rest).bracket <;>
      simp [LineReading.cons, LineReading.shift, h]

lemma readFrom_cons_of_kind {cursor next : Cursor} {kind : CharKind} {c : Char} {rest : Text}
    (h : lang.readChar cursor c rest = ⟨kind, none, next⟩) (i : Nat) :
    lang.readFrom cursor i (c :: rest) = (lang.readFrom next i rest).behind 1 kind := by
  rw [readFrom_cons, h, readFrom_succ, LineReading.cons_shift]

/-- Characters of one kind are passed over, also where the cursor depends on those passed before. -/
lemma readFrom_append_of_kind {kind : CharKind} {front rest : Text} (cursorBehind : Text → Cursor)
    (hstep : ∀ passed c more, front = passed ++ c :: more →
      lang.readChar (cursorBehind passed) c (more ++ rest) =
        ⟨kind, none, cursorBehind (passed ++ [c])⟩) (i : Nat) :
    lang.readFrom (cursorBehind []) i (front ++ rest) =
      (lang.readFrom (cursorBehind front) i rest).behind front.length kind := by
  induction front generalizing cursorBehind with
  | nil => simp
  | cons c front ih =>
    -- The cursor of the rest still depends on the character that is taken off here.
    have hrest := ih (fun passed => cursorBehind (c :: passed)) (by
      rintro passed d more rfl
      exact hstep (c :: passed) d more rfl)
    rw [List.cons_append, readFrom_cons_of_kind (hstep [] c front rfl), List.nil_append, hrest,
      LineReading.behind_behind, List.length_cons, Nat.add_comm]

/-- The rest of a block marker is passed over. -/
lemma readFrom_insideMarker (s : LineState) (tail rest : Text) (i : Nat) :
    lang.readFrom ⟨s, .insideMarker tail.length⟩ i (tail ++ rest) =
      (lang.readFrom ⟨s, .free⟩ i rest).behind tail.length .blockComment := by
  induction tail with
  | nil => simp [Mode.insideMarker]
  | cons c tail ih =>
    have hread : lang.readChar ⟨s, .insideMarker (tail.length + 1)⟩ c (tail ++ rest) =
        ⟨.blockComment, none, ⟨s, .insideMarker tail.length⟩⟩ := rfl
    rw [List.length_cons, List.cons_append, readFrom_cons_of_kind hread, ih,
      LineReading.behind_behind, Nat.add_comm]

/-- And so is all of it, from where its first character is known for what it is. -/
lemma readFrom_marker {cursor : Cursor} {s : LineState} {marker text : Text} (hne : marker ≠ [])
    (hstarts : marker <+: text) (hfirst : ∀ c rest, text = c :: rest → lang.readChar cursor c rest =
      ⟨.blockComment, none, ⟨s, .insideMarker (marker.length - 1)⟩⟩) (i : Nat) :
    lang.readFrom cursor i text = (lang.readFrom ⟨s, .free⟩ i (text.drop marker.length)).behind
      marker.length .blockComment := by
  obtain ⟨c, tail, rfl⟩ := List.exists_cons_of_ne_nil hne
  obtain ⟨rest, rfl⟩ := hstarts
  have hread := hfirst c (tail ++ rest) rfl
  rw [List.length_cons, Nat.add_sub_cancel] at hread
  rw [List.drop_left, List.cons_append, readFrom_cons_of_kind hread, readFrom_insideMarker,
    LineReading.behind_behind, List.length_cons, Nat.add_comm]

/-- A literal that is passed over one character at a time until its end comes. -/
lemma readsLiteral_of_steps {kind : CharKind} {inside outside : LineState} {IsEnd : Nat → Prop}
    {size : Nat} {line : Text} (cursorBehind : Text → Cursor)
    (hstart : cursorBehind [] = ⟨inside, .free⟩)
    (hstate : ∀ passed, (cursorBehind passed).state = inside)
    (hstep : ∀ passed c rest, line = passed ++ c :: rest → ¬ IsEnd passed.length →
      lang.readChar (cursorBehind passed) c rest = ⟨kind, none, cursorBehind (passed ++ [c])⟩)
    (hend : ∀ passed rest, line = passed ++ rest → IsEnd passed.length →
      lang.readFrom (cursorBehind passed) 0 rest =
        (lang.readLine outside (rest.drop size)).behind size kind)
    (hinside : ∀ i, IsEnd i → i ≤ line.length) :
    lang.ReadsLiteral kind inside outside IsEnd size line := by
  have hpass : ∀ front rest, line = front ++ rest → (∀ i < front.length, ¬ IsEnd i) →
      lang.readLine inside line =
        (lang.readFrom (cursorBehind front) 0 rest).behind front.length kind := by
    rintro front rest hline hopen
    rw [readLine, ← hstart, hline]
    refine readFrom_append_of_kind cursorBehind ?_ 0
    rintro passed c more rfl
    exact hstep passed c (more ++ rest) (by simp [hline]) (hopen _ (by simp))
  constructor
  · rintro i ⟨hi, hleast⟩
    have hlength : (line.take i).length = i := List.length_take_of_le (hinside i hi)
    have hopen : ∀ j < (line.take i).length, ¬ IsEnd j := fun j hj hjend =>
      absurd (hleast hjend) (by omega)
    have hsplit : line = line.take i ++ line.drop i := (List.take_append_drop i line).symm
    rw [hpass _ _ hsplit hopen, hend _ _ hsplit (by rwa [hlength]), hlength, List.drop_drop,
      LineReading.behind_behind]
  · intro hopen
    rw [hpass line [] (by simp) (fun i _ => hopen i), readFrom_nil, hstate]

section InString

variable {s : LineState} {quote : Char} (hquote : s.openQuote = some quote)
  (hescape : lang.escape ≠ some quote)

lemma escapesAtEnd_append (front : Text) (c : Char) : lang.escapesAtEnd (front ++ [c]) =
    if lang.escape = some c then lang.escapesAtEnd front + 1 else 0 := by
  by_cases h : lang.escape = some c <;> simp [escapesAtEnd, h]

/-- How a string is read behind a part of it: an odd number of escapes has one left over. -/
def modeInString (lang : Language) (front : Text) : Mode :=
  if Even (lang.escapesAtEnd front) then .free else .escaped

include hquote hescape

/-- A character of a string ends it or leaves the escapes counted. -/
lemma readChar_inString (front : Text) (c : Char) (rest : Text) :
    lang.readChar ⟨s, lang.modeInString front⟩ c rest =
      ⟨.string, none, if c = quote ∧ Even (lang.escapesAtEnd front)
        then ⟨{ s with openQuote := none }, .free⟩ else ⟨s, lang.modeInString (front ++ [c])⟩⟩ := by
  simp only [modeInString, escapesAtEnd_append]
  by_cases heven : Even (lang.escapesAtEnd front)
  · by_cases hc : lang.escape = some c
    · have hne : c ≠ quote := by
        rintro rfl
        exact hescape hc
      simp [readChar, readInString, hquote, heven, hc, hne, Nat.even_add_one]
    · by_cases hq : c = quote <;> simp [readChar, readInString, hquote, heven, hc, hq, hescape]
  · by_cases hc : lang.escape = some c <;> simp [readChar, heven, hc, Nat.even_add_one]

theorem readsLiteral_string (line : Text) :
    lang.ReadsLiteral .string s { s with openQuote := none } (lang.ClosesString quote line) 1
      line := by
  refine readsLiteral_of_steps (fun passed => ⟨s, lang.modeInString passed⟩) ?_ (fun _ => rfl)
    ?_ ?_ ?_
  · simp [modeInString, escapesAtEnd]
  · rintro passed c rest rfl hopen
    have hnot : ¬ (c = quote ∧ Even (lang.escapesAtEnd passed)) := by
      simpa [ClosesString] using hopen
    rw [readChar_inString hquote hescape, if_neg hnot]
  · rintro passed rest rfl ⟨hc, heven⟩
    rw [List.getElem?_append_right (Nat.le_refl _), Nat.sub_self] at hc
    obtain ⟨rest, rfl⟩ : ∃ tail, rest = quote :: tail := by
      cases rest with
      | nil => cases hc
      | cons c tail => exact ⟨tail, by rw [Option.some.inj hc]⟩
    rw [List.take_left] at heven
    have hread := readChar_inString hquote hescape passed quote rest
    rw [if_pos ⟨rfl, heven⟩] at hread
    rw [readFrom_cons_of_kind hread]
    rfl
  · rintro i ⟨hi, -⟩
    exact (List.getElem?_eq_some_iff.mp hi).1.le

end InString

theorem readsLiteral_comment {s : LineState} {first last : Text}
    (hblock : lang.comments.block? = some (first, last)) (hquote : s.openQuote = none)
    (hcomment : s.inComment = true) (line : Text) :
    lang.ReadsLiteral .blockComment s { s with inComment := false } (fun i => last <+: line.drop i)
      last.length line := by
  have hne := (CommentMarkers.block?_ne_nil hblock).2
  refine readsLiteral_of_steps (fun _ => ⟨s, .free⟩) rfl (fun _ => rfl) ?_ ?_ ?_
  · rintro passed c rest rfl hopen
    rw [List.drop_left] at hopen
    simp [readChar, hquote, hcomment, readInComment, CommentMarkers.blockEndAt?, hblock,
      Option.filter, hopen]
  · rintro passed rest rfl hstarts
    rw [List.drop_left] at hstarts
    refine readFrom_marker hne hstarts ?_ 0
    rintro c rest rfl
    simp [readChar, hquote, hcomment, readInComment, CommentMarkers.blockEndAt?, hblock,
      Option.filter, hstarts]
  · intro i hstarts
    by_contra hpast
    rw [List.drop_of_length_le (by omega)] at hstarts
    exact hne (List.prefix_nil.mp hstarts)

/-- What a string and a block comment take of a line is given by their ends alone: a string by the
first of its quotes with an even number of escapes directly in front of it, unless the quote is
itself the escape, and a block comment by the first end marker. In plain code a start marker opens
a comment whose end is looked for behind it, and a quote a string, where no line comment, and for
the quote no block comment, starts at the same place. -/
theorem literals_read_to_first_end (lang : Language) :
    (∀ s quote line, s.openQuote = some quote → lang.escape ≠ some quote →
      lang.ReadsLiteral .string s { s with openQuote := none } (lang.ClosesString quote line) 1
        line) ∧
    (∀ s first last line, lang.comments.block? = some (first, last) → s.openQuote = none →
      s.inComment = true →
      lang.ReadsLiteral .blockComment s { s with inComment := false }
        (fun i => last <+: line.drop i) last.length line) ∧
    (∀ first last rest, lang.comments.block? = some (first, last) →
      (∀ marker, lang.comments.line? = some marker → ¬ marker <+: first ++ rest) →
      lang.readLine .plain (first ++ rest) =
        (lang.readLine ⟨none, true⟩ rest).behind first.length .blockComment) ∧
    ∀ quote rest, lang.isQuote quote = true →
      (∀ marker, lang.comments.line? = some marker → ¬ marker <+: quote :: rest) →
      (∀ first last, lang.comments.block? = some (first, last) → ¬ first <+: quote :: rest) →
      lang.readLine .plain (quote :: rest) =
        (lang.readLine ⟨some quote, false⟩ rest).behind 1 .string := by
  refine ⟨fun _ _ line hquote hescape => readsLiteral_string hquote hescape line,
    fun _ _ _ line hblock hquote hcomment => readsLiteral_comment hblock hquote hcomment line,
    ?_, ?_⟩
  · intro first last rest hblock hline
    have hstarts : first <+: first ++ rest := List.prefix_append first rest
    have hfirst : ∀ c more, first ++ rest = c :: more → lang.readChar ⟨.plain, .free⟩ c more =
        ⟨.blockComment, none, ⟨⟨none, true⟩, .insideMarker (first.length - 1)⟩⟩ := by
      intro c more htext
      have hcode := startsLine_eq_false hline
      rw [htext] at hcode hstarts
      simp [readChar, LineState.plain, readInCode, hcode, CommentMarkers.blockStartAt?, hblock,
        Option.filter, hstarts]
    have hread := readFrom_marker (CommentMarkers.block?_ne_nil hblock).1 hstarts hfirst 0
    rwa [List.drop_left] at hread
  · intro quote rest hquote hline hblock
    have hcode := startsLine_eq_false hline
    have hstart : lang.comments.blockStartAt? (quote :: rest) = none := by
      unfold CommentMarkers.blockStartAt?
      cases hmarkers : lang.comments.block? with
      | none => rfl
      | some markers => simpa [Option.filter] using hblock markers.1 markers.2 hmarkers
    refine readFrom_cons_of_kind ?_ 0
    simp [readChar, LineState.plain, readInCode, hcode, hstart, hquote]

/-- An escaped quote and an escaped escape in a string, a comment whose start marker ends with the
first character of an end marker, and a string that stays open. -/
theorem literals_read_to_first_end_overlapping :
    let lang := Language.javaScript
    let line := "a\\\"b\\\\\"/*/(*/'[".toList
    let comment := "/(*/'[".toList
    IsLeast {i | lang.ClosesString '"' line i} 6 ∧
    lang.readLine ⟨some '"', false⟩ line = (lang.readLine .plain (line.drop 7)).behind 7 .string ∧
    lang.readLine .plain (line.drop 7) =
      (lang.readLine ⟨none, true⟩ comment).behind 2 .blockComment ∧
    IsLeast {i | ['*', '/'] <+: comment.drop i} 2 ∧
    lang.readLine ⟨none, true⟩ comment =
      (lang.readLine .plain ['\'', '[']).behind 4 .blockComment ∧
    lang.readLine .plain ['\'', '['] =
      (lang.readLine ⟨some '\'', false⟩ ['[']).behind 1 .string ∧
    (∀ i, ¬ lang.ClosesString '\'' ['['] i) ∧
    lang.readLine ⟨some '\'', false⟩ ['['] =
      (LineReading.empty ⟨some '\'', false⟩).behind 1 .string := by
  intro lang line comment
  obtain ⟨hstring, hcomment, hstart, hquote⟩ := literals_read_to_first_end lang
  have hblock : lang.comments.block? = some (['/', '*'], ['*', '/']) := rfl
  have hline : ∀ text : Text, ¬ ['/', '/'] <+: text →
      ∀ marker, lang.comments.line? = some marker → ¬ marker <+: text := by
    rintro text htext _ ⟨⟩
    exact htext
  have hcloses : IsLeast {i | lang.ClosesString '"' line i} 6 := by
    refine ⟨by decide, fun i hi => Nat.not_lt.mp fun hlt => ?_⟩
    exact (by decide : ∀ i < 6, ¬ lang.ClosesString '"' line i) i hlt hi
  have hends : IsLeast {i | ['*', '/'] <+: comment.drop i} 2 := by
    refine ⟨by decide, fun i hi => Nat.not_lt.mp fun hlt => ?_⟩
    exact (by decide : ∀ i < 2, ¬ ['*', '/'] <+: comment.drop i) i hlt hi
  have hopen : ∀ i, ¬ lang.ClosesString '\'' ['['] i := by
    rintro (_ | i) ⟨hi, -⟩
    · exact absurd hi (by decide)
    · simp at hi
  have hcode : line.drop 7 = ['/', '*'] ++ comment := by decide
  have hrest : comment.drop (2 + 2) = ['\'', '['] := by decide
  have hbehind := (hcomment ⟨none, true⟩ _ _ comment hblock rfl rfl).closed 2 hends
  rw [List.length_cons, List.length_singleton, hrest] at hbehind
  refine ⟨hcloses, ?_, ?_, hends, hbehind, ?_, hopen, ?_⟩
  · exact (hstring ⟨some '"', false⟩ '"' line rfl (by decide)).closed 6 hcloses
  · rw [hcode]
    exact hstart ['/', '*'] ['*', '/'] comment hblock (hline _ (by decide))
  · exact hquote '\'' ['['] (by decide) (hline _ (by decide)) (by
      rintro _ _ ⟨⟩
      decide)
  · exact (hstring ⟨some '\'', false⟩ '\'' ['['] rfl (by decide)).unclosed hopen

end Language
end EditingEngine
