import EditingEngine.Indentation.Reindent
import EditingEngine.Proofs.Lexical.CharReadings
import Mathlib.Logic.Relation

/-!
# What can be open at the end of a line

A character that is read leaves open what was open, ends a string or a comment, or begins one
where nothing is open. So whatever lines are read, and whatever a pass that re-indents them leaves
out, the state behind them is reached by such moves. What no move breaks holds of every state: a
string and a block comment are never open together, an open string waits for a quote of its
language, and only a language with both block markers has an open block comment.
-/
namespace EditingEngine

namespace LineState

/-- What reading one character may do to what is open. -/
inductive Moves (lang : Language) : LineState → LineState → Prop
  | stay (s : LineState) : Moves lang s s
  | endString (s : LineState) : Moves lang s { s with openQuote := none }
  | endComment (s : LineState) : Moves lang s { s with inComment := false }
  | beginString {quote : Char} (hquote : lang.isQuote quote = true) :
      Moves lang plain ⟨some quote, false⟩
  | beginComment {first last : Text} (hblock : lang.comments.block? = some (first, last)) :
      Moves lang plain ⟨none, true⟩

/-- Reading can get from one state to another one. -/
def Reaches (lang : Language) : LineState → LineState → Prop := Relation.ReflTransGen (Moves lang)

/-- The open quote is one of the quotes of the language. -/
def HasQuoteOf (s : LineState) (lang : Language) : Prop :=
  ∀ q, s.openQuote = some q → q ∈ lang.quotes

/-- At most one of a string and a block comment is open, and the language has the quote or the
markers for it. -/
structure WellFormed (s : LineState) (lang : Language) : Prop where
  not_both : ¬ (s.inString = true ∧ s.inComment = true)
  quote : s.HasQuoteOf lang
  markers : s.inComment = true → ∃ first last, lang.comments.blockStart = some first ∧
    lang.comments.blockEnd = some last ∧ first ≠ [] ∧ last ≠ []

variable {lang : Language} {s t : LineState}

lemma HasQuoteOf.moves (hs : s.HasQuoteOf lang) (hmove : Moves lang s t) : t.HasQuoteOf lang := by
  cases hmove with
  | stay | endComment => exact hs
  | endString | beginComment => exact fun q hnone => nomatch hnone
  | beginString hquote =>
    rintro q ⟨⟩
    simpa [Language.isQuote] using hquote

lemma wellFormed_plain (lang : Language) : plain.WellFormed lang where
  not_both := by simp [plain]
  quote := by simp [HasQuoteOf, plain]
  markers := by simp [plain]

lemma WellFormed.moves (hs : s.WellFormed lang) (hmove : Moves lang s t) : t.WellFormed lang := by
  refine ⟨?_, hs.quote.moves hmove, ?_⟩
  · cases hmove with
    | stay => exact hs.not_both
    | endString | endComment | beginString | beginComment => simp [inString]
  · cases hmove with
    | stay | endString => exact hs.markers
    | endComment | beginString => simp
    | beginComment hblock =>
      obtain ⟨hfirst, hlast⟩ := CommentMarkers.block?_eq_some hblock
      obtain ⟨hfirst_ne, hlast_ne⟩ := CommentMarkers.block?_ne_nil hblock
      exact fun _ => ⟨_, _, hfirst, hlast, hfirst_ne, hlast_ne⟩

/-- What no move breaks is kept however far the reading goes. -/
lemma Reaches.keeps {P : LineState → Prop} (hP : ∀ {s t}, P s → Moves lang s t → P t)
    (hreach : Reaches lang s t) (hs : P s) : P t := by
  induction hreach with
  | refl => exact hs
  | tail _ hmove ih => exact hP ih hmove

lemma WellFormed.reaches (hs : s.WellFormed lang) (hreach : Reaches lang s t) :
    t.WellFormed lang :=
  hreach.keeps WellFormed.moves hs

end LineState

namespace Language

open LineState

variable {lang : Language}

lemma Reads.moves {cursor : Cursor} {c : Char} {rest : Text} {r : CharReading}
    (h : lang.Reads c rest cursor r) : Moves lang cursor.state r.next.state := by
  cases h with
  | stringEnd => exact .endString _
  | commentEnd => exact .endComment _
  | commentStart _ hstart =>
    obtain ⟨hmarker, -⟩ := Option.filter_eq_some_iff.mp hstart
    obtain ⟨markers, hblock, -⟩ := Option.map_eq_some_iff.mp hmarker
    exact .beginComment hblock
  | stringStart _ _ hquote => exact .beginString hquote
  | _ => exact .stay _

lemma reaches_readFrom (lang : Language) (cursor : Cursor) (i : Nat) (text : Text) :
    Reaches lang cursor.state (lang.readFrom cursor i text).exitState := by
  induction text generalizing cursor i with
  | nil => exact .refl
  | cons c rest ih => exact .head (lang.reads_readChar cursor c rest).moves (ih _ (i + 1))

lemma reaches_readLine (lang : Language) (s : LineState) (line : Text) :
    Reaches lang s (lang.readLine s line).exitState :=
  lang.reaches_readFrom ⟨s, .free⟩ 0 line

lemma reaches_stateAfter (lang : Language) (s : LineState) (lines : List Text) :
    Reaches lang s (lang.stateAfter s lines) := by
  induction lines generalizing s with
  | nil => exact .refl
  | cons line rest ih => exact (lang.reaches_readLine s line).trans (ih _)

lemma hasQuoteOf_plain : LineState.plain.HasQuoteOf lang := (wellFormed_plain lang).quote

lemma hasQuoteOf_readChar {cursor : Cursor} (hq : cursor.state.HasQuoteOf lang) (c : Char)
    (rest : Text) : (lang.readChar cursor c rest).next.state.HasQuoteOf lang :=
  hq.moves (lang.reads_readChar cursor c rest).moves

lemma hasQuoteOf_readLine {s : LineState} (hs : s.HasQuoteOf lang) (line : Text) :
    (lang.readLine s line).exitState.HasQuoteOf lang :=
  (lang.reaches_readLine s line).keeps HasQuoteOf.moves hs

lemma hasQuoteOf_stateAfter {s : LineState} (hs : s.HasQuoteOf lang) (lines : List Text) :
    (lang.stateAfter s lines).HasQuoteOf lang :=
  (lang.reaches_stateAfter s lines).keeps HasQuoteOf.moves hs

end Language

namespace Pass

/-- A blank line and a closing bracket that is left out change nothing. -/
lemma reaches_next (p : Pass) (lang : Language) (line : Text) :
    LineState.Reaches lang p.state (p.next lang line).state := by
  by_cases hblank : line.trim = []
  · simp only [next, hblank, if_true]
    exact .refl
  · simp only [next, hblank, if_false]
    -- What is read is the trimmed line or what follows its first closer, and either one will do.
    exact lang.reaches_readLine p.state _

lemma reaches_after (p : Pass) (lang : Language) (lines : List Text) :
    LineState.Reaches lang p.state (p.after lang lines).state := by
  induction lines generalizing p with
  | nil => exact .refl
  | cons line rest ih => exact (p.reaches_next lang line).trans (ih (p.next lang line))

end Pass

namespace Language

/-- Behind any lines that are read from plain code on, and in front of every line that is
re-indented, a string and a block comment are not both open, an open string waits for a quote of
the language, and a block comment is open only if the language has both markers. And a line that is
entered in such a state leaves such a state behind. -/
theorem states_wellFormed (lang : Language) :
    (∀ lines, (lang.stateAfter .plain lines).WellFormed lang) ∧
    (∀ lines, (Pass.start.after lang lines).state.WellFormed lang) ∧
    ∀ s line, s.WellFormed lang → (lang.readLine s line).exitState.WellFormed lang := by
  have hplain := LineState.wellFormed_plain lang
  refine ⟨?_, ?_, ?_⟩
  · exact fun lines => hplain.reaches (lang.reaches_stateAfter .plain lines)
  · exact fun lines => hplain.reaches (Pass.start.reaches_after lang lines)
  · exact fun s line hs => hs.reaches (lang.reaches_readLine s line)

/-- A language in which a quote is also the first character of a marker. A string runs on over a
line, and behind its end on the next one a comment is left open. -/
theorem states_wellFormed_shared_character :
    let lang : Language := { javaScript with quotes := ['/', '"'] }
    let s := lang.stateAfter .plain [") a/b".toList]
    let p := Pass.start.after lang [") a/b".toList, " ".toList, ") c*/ /*".toList]
    let r := lang.readLine s ") c*/ /* \"".toList
    s = ⟨some '/', false⟩ ∧ s.WellFormed lang ∧
    p.state = ⟨none, true⟩ ∧ p.state.WellFormed lang ∧
    r.exitState = ⟨none, true⟩ ∧ r.exitState.WellFormed lang := by
  intro lang s p r
  obtain ⟨hlines, hpass, hline⟩ := states_wellFormed lang
  have hs : s.WellFormed lang := hlines _
  exact ⟨by decide, hs, by decide, hpass _, by decide, hline s _ hs⟩

end Language
end EditingEngine
