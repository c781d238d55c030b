import EditingEngine.Proofs.Lexical.CodeBrackets
import EditingEngine.Proofs.Lexical.Literals

/-!
# A reading leaves nothing out

Markers are read whole and a line comment takes what is left of its line, so a line is read in
pieces. No piece is empty, whatever markers a language has: the reading comes to its end after at
most as many pieces as the line has characters, and gives each of them one kind. What it notes of
brackets can be counted off these kinds, in front of every index and for the line as a whole.
-/
namespace EditingEngine

/-- The reading with a piece in front of it: so many characters read alike, the first of which may
be a bracket. -/
def LineReading.behindPiece (size : Nat) (r : CharReading) (rest : LineReading) : LineReading where
  exitState := rest.exitState
  depthChange := (r.bracket.map Side.depthChange).getD 0 + rest.depthChange
  kinds := List.replicate size r.kind ++ rest.kinds
  brackets := (r.bracket.map (0, ·)).toList ++ (rest.shift size).brackets

lemma LineReading.behindPiece_none (size : Nat) (kind : CharKind) (next : Cursor)
    (rest : LineReading) : rest.behindPiece size ⟨kind, none, next⟩ = rest.behind size kind := by
  simp [behind, behindPiece, shift]

/-- The number of positions in front of an index that hold a character of the code of some sort. -/
def LineReading.codeBefore (r : LineReading) (line : Text) (sort : Char → Bool) (i : Nat) : Nat :=
  (List.range i).countP fun j => r.kindAt? j == some .code && (line : Text)[j]?.any sort

/-- Only an escape reaches from one piece into the next. -/
def Cursor.atPiece (cursor : Cursor) : Cursor :=
  ⟨cursor.state, if cursor.mode = .escaped then .escaped else .free⟩

namespace Language

/-- How many characters are read at one go: a block marker as a whole, a line comment to its end,
and every other character alone. -/
def pieceSize (lang : Language) (cursor : Cursor) (text : Text) : Nat :=
  if cursor.mode = .escaped ∨ cursor.state.inString = true then 1
  else if cursor.state.inComment then ((lang.comments.blockEndAt? text).map List.length).getD 1
  else if lang.comments.startsLine text then text.length
  else ((lang.comments.blockStartAt? text).map List.length).getD 1

/-- Reading a piece at a time, and giving up after so many of them. -/
def readPieces? (lang : Language) : Nat → Cursor → Text → Option LineReading
  | _, cursor, [] => some (.empty cursor.state)
  | 0, _, _ :: _ => none
  | pieces + 1, cursor, c :: rest =>
    let r := lang.readChar cursor c rest
    let size := lang.pieceSize cursor (c :: rest)
    (lang.readPieces? pieces r.next.atPiece ((c :: rest).drop size)).map (.behindPiece size r)

variable {lang : Language}

section Pieces

variable {cursor : Cursor} {c : Char} {rest : Text}

/-- A piece is one character, a block marker or a line comment. -/
lemma Reads.piece_cases {r : CharReading} (h : lang.Reads c rest cursor r)
    (hmode : cursor.mode = .free ∨ cursor.mode = .escaped) :
    (lang.pieceSize cursor (c :: rest) = 1 ∧ r.next.atPiece = r.next) ∨
    (∃ s marker, lang.pieceSize cursor (c :: rest) = marker.length ∧
      (marker ≠ [] ∧ marker <+: c :: rest) ∧
      r = ⟨.blockComment, none, ⟨s, .insideMarker (marker.length - 1)⟩⟩) ∨
    (lang.pieceSize cursor (c :: rest) = (c :: rest).length ∧
      r = ⟨.lineComment, none, ⟨cursor.state, .lineComment⟩⟩) := by
  cases h with
  | inLineComment | inMarker => simp at hmode
  | escaped | escape | stringEnd | inString =>
    exact Or.inl ⟨by simp [pieceSize, LineState.inString], rfl⟩
  | commentEnd hend =>
    refine Or.inr (Or.inl ⟨_, _, ?_, CommentMarkers.blockEndAt?_eq_some hend, rfl⟩)
    simp [pieceSize, LineState.inString, hend]
  | inComment hend => exact Or.inl ⟨by simp [pieceSize, LineState.inString, hend], rfl⟩
  | lineStart hline =>
    refine Or.inr (Or.inr ⟨?_, rfl⟩)
    simp [pieceSize, LineState.inString, LineState.plain, hline]
  | commentStart hline hstart =>
    refine Or.inr (Or.inl ⟨_, _, ?_, CommentMarkers.blockStartAt?_eq_some hstart, rfl⟩)
    simp [pieceSize, LineState.inString, LineState.plain, hline, hstart]
  | stringStart hline hstart | code hline hstart =>
    refine Or.inl ⟨?_, rfl⟩
    simp [pieceSize, LineState.inString, LineState.plain, hline, hstart]

lemma readFrom_lineComment (s : LineState) (text : Text) :
    lang.readFrom ⟨s, .lineComment⟩ 0 text =
      (LineReading.empty s).behind text.length .lineComment := by
  have hread : lang.readFrom ⟨s, .lineComment⟩ 0 (text ++ []) = _ :=
    readFrom_append_of_kind (fun _ => ⟨s, .lineComment⟩) (fun _ _ _ _ => rfl) 0
  simpa using hread

/-- The first piece is not empty, and with what follows it makes up the reading. -/
lemma readFrom_piece (hmode : cursor.mode = .free ∨ cursor.mode = .escaped) {r : CharReading}
    {size : Nat} (hr : lang.readChar cursor c rest = r)
    (hsize : lang.pieceSize cursor (c :: rest) = size) : 0 < size ∧
      lang.readFrom cursor 0 (c :: rest) =
        (lang.readFrom r.next.atPiece 0 ((c :: rest).drop size)).behindPiece size r := by
  rcases (lang.reads_readChar cursor c rest).piece_cases hmode with
    ⟨hone, hnext⟩ | ⟨s, marker, hlength, hmarker, hread⟩ | ⟨hlength, hread⟩
  · obtain rfl : size = 1 := hsize.symm.trans hone
    refine ⟨Nat.one_pos, ?_⟩
    rw [hr] at hnext
    rw [readFrom_cons, readFrom_succ, hr, hnext]
    rfl
  · obtain rfl : size = marker.length := hsize.symm.trans hlength
    have hfirst : ∀ d more, c :: rest = d :: more → lang.readChar cursor d more =
        ⟨.blockComment, none, ⟨s, .insideMarker (marker.length - 1)⟩⟩ := by
      rintro _ _ ⟨⟩
      exact hread
    have hnext : Cursor.atPiece ⟨s, .insideMarker (marker.length - 1)⟩ = ⟨s, .free⟩ := by
      cases marker.length - 1 <;> rfl
    obtain rfl := hr.symm.trans hread
    refine ⟨List.length_pos_iff.mpr hmarker.1, ?_⟩
    rw [readFrom_marker hmarker.1 hmarker.2 hfirst, hnext, LineReading.behindPiece_none]
  · obtain rfl : size = (c :: rest).length := hsize.symm.trans hlength
    obtain rfl := hr.symm.trans hread
    refine ⟨Nat.succ_pos _, ?_⟩
    rw [readFrom_cons_of_kind hread, readFrom_lineComment, LineReading.behind_behind,
      LineReading.behindPiece_none, List.drop_length, List.length_cons, Nat.add_comm]
    rfl

end Pieces

/-- A line has at least as many characters as it has pieces, so reading it comes to an end. -/
theorem readPieces?_eq {pieces : Nat} {cursor : Cursor} {text : Text}
    (hmode : cursor.mode = .free ∨ cursor.mode = .escaped) (hlength : text.length ≤ pieces) :
    lang.readPieces? pieces cursor text = some (lang.readFrom cursor 0 text) := by
  induction pieces generalizing cursor text with
  | zero =>
    obtain rfl : text = [] := List.length_eq_zero_iff.mp (Nat.le_zero.mp hlength)
    rfl
  | succ pieces ih =>
    cases text with
    | nil => rfl
    | cons c rest =>
      obtain ⟨hpos, hread⟩ : 0 < lang.pieceSize cursor (c :: rest) ∧
        lang.readFrom cursor 0 (c :: rest) = _ := readFrom_piece hmode rfl rfl
      have hnext : (lang.readChar cursor c rest).next.atPiece.mode = .free ∨
          (lang.readChar cursor c rest).next.atPiece.mode = .escaped := by
        unfold Cursor.atPiece
        split
        · exact Or.inr rfl
        · exact Or.inl rfl
      have hrest : ((c :: rest).drop (lang.pieceSize cursor (c :: rest))).length ≤ pieces := by
        rw [List.length_drop]
        omega
      rw [readPieces?, ih hnext hrest, hread]
      rfl

section Brackets

lemma le_index_of_mem_brackets {cursor : Cursor} {i : Nat} {line : Text} {b : Nat × Side}
    (hb : b ∈ (lang.readFrom cursor i line).brackets) : i ≤ b.1 := by
  induction line generalizing cursor i with
  | nil => cases hb
  | cons c rest ih =>
    rcases List.mem_append.mp hb with hhead | hrest
    · obtain ⟨side, _, rfl⟩ : ∃ side, _ = some side ∧ (i, side) = b := by
        simpa using hhead
      exact Nat.le_refl i
    · exact Nat.le_of_succ_le (ih hrest)

lemma side?_eq_opening (c : Char) : (lang.side? c == some .opening) = lang.isOpener c := by
  unfold side?
  cases lang.isOpener c <;> cases lang.isCloser c <;> rfl

lemma side?_eq_closing (c : Char) :
    (lang.side? c == some .closing) = (lang.isCloser c && !lang.isOpener c) := by
  unfold side?
  cases lang.isOpener c <;> cases lang.isCloser c <;> rfl

/-- The brackets of one side are the characters of the code that play this part. -/
lemma countP_brackets (cursor : Cursor) (i : Nat) (line : Text) (side : Side) (n : Nat) :
    (lang.readFrom cursor i line).brackets.countP (fun b => b.1 < i + n && b.2 == side) =
      (lang.readFrom cursor i line).codeBefore line (lang.side? · == some side) n := by
  induction line generalizing cursor i n with
  | nil => simp [LineReading.empty, LineReading.codeBefore]
  | cons c rest ih =>
    cases n with
    | zero =>
      refine List.countP_eq_zero.mpr fun b hb => ?_
      have hle := le_index_of_mem_brackets hb
      simp [hle]
    | succ n =>
      -- The positions behind the first are those of the rest, each one further on.
      have hrest := ih (lang.readChar cursor c rest).next (i + 1) n
      rw [Nat.add_right_comm, Nat.add_assoc] at hrest
      rw [LineReading.codeBefore, List.range_succ_eq_map, List.countP_cons, List.countP_map,
        readFrom_cons]
      simp only [LineReading.cons, List.countP_append, hrest, bracket_readChar]
      rw [Nat.add_comm]
      congr 1
      by_cases hkind : (lang.readChar cursor c rest).kind = .code
      · cases hside : lang.side? c <;> simp [hkind, hside, LineReading.kindAt?]
      · simp [hkind, LineReading.kindAt?]

lemma bracketsBefore_eq (s : LineState) (line : Text) (side : Side) (i : Nat) :
    (lang.readLine s line).bracketsBefore side i =
      (lang.readLine s line).codeBefore line (lang.side? · == some side) i := by
  have hcount := lang.countP_brackets ⟨s, .free⟩ 0 line side i
  rwa [Nat.zero_add] at hcount

end Brackets

/-- Whatever markers a language has, reading a line piece by piece comes to an end, and gives every
character one kind. In front of every index the opening brackets are the characters of the code that
open a pair, and the closing ones those that close one and open none, and the depth changes by their
difference over the whole line. -/
theorem readings_complete (lang : Language) (s : LineState) (line : Text) :
    let r := lang.readLine s line
    lang.readPieces? line.length ⟨s, .free⟩ line = some r ∧
    (∀ i, (r.kindAt? i).isSome = true ↔ i < line.length) ∧
    (∀ i, r.bracketsBefore .opening i = r.codeBefore line lang.isOpener i) ∧
    (∀ i, r.bracketsBefore .closing i =
      r.codeBefore line (fun c => lang.isCloser c && !lang.isOpener c) i) ∧
    ∀ n, line.length ≤ n →
      r.depthChange = r.bracketsBefore .opening n - r.bracketsBefore .closing n := by
  intro r
  refine ⟨readPieces?_eq (Or.inl rfl) (Nat.le_refl _), ?_, ?_, ?_, ?_⟩
  · intro i
    simp [r, LineReading.kindAt?]
  · intro i
    rw [bracketsBefore_eq, funext side?_eq_opening]
  · intro i
    rw [bracketsBefore_eq, funext side?_eq_closing]
  · intro n hn
    rw [bracketsBefore_of_length_le _ _ hn, bracketsBefore_of_length_le _ _ hn]
    exact depthChange_eq_brackets _ _ _

/-- A language with an empty marker, a start marker without its end, and a bracket that is both an
opening and a closing one. -/
theorem readings_complete_half_configured :
    let lang : Language :=
      { Language.javaScript with
        comments := ⟨some [], some ['/', '*'], none⟩
        indentPairs := [⟨'(', ')'⟩, ⟨'|', '|'⟩, ⟨'<', '('⟩] }
    let line := "/*(|)')".toList
    let r := lang.readLine .plain line
    lang.readPieces? 7 ⟨.plain, .free⟩ line = some r ∧
    (r.kindAt? 6).isSome = true ∧ (r.kindAt? 7).isSome = false ∧
    r.codeBefore line lang.isOpener 9 = 2 ∧ r.bracketsBefore .opening 9 = 2 ∧
    r.bracketsBefore .closing 4 = 0 ∧ r.bracketsBefore .closing 9 = 1 ∧
    line.length ≤ 9 ∧ r.depthChange = 1 := by
  intro lang line r
  obtain ⟨hpieces, hkinds, hopening, hclosing, hdepth⟩ := readings_complete lang .plain line
  have hopeners : r.bracketsBefore .opening 9 = 2 := by
    rw [hopening]
    decide
  have hclosers : r.bracketsBefore .closing 9 = 1 := by
    rw [hclosing]
    decide
  have hend : line.length ≤ 9 := by decide
  refine ⟨hpieces, (hkinds 6).mpr (by decide), ?_, by decide, hopeners, by decide, hclosers, hend,
    ?_⟩
  · exact Bool.eq_false_iff.mpr fun hsome => absurd ((hkinds 7).mp hsome) (by decide)
  · rw [hdepth 9 hend, hopeners, hclosers]
    rfl

end Language
end EditingEngine
