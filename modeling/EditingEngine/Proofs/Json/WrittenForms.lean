import EditingEngine.Json.Forms
import EditingEngine.Proofs.Json.WrittenValues

/-!
# The forms of the engine's values are read back

Every value that a host stores is what is read from its form, whatever its texts and characters are
and as long as its numbers are counts. Settings are then checked, so what a host gets for them
depends on their two numbers that must not be zero, and on nothing else.
-/
namespace EditingEngine

open Json

lemma WidthRule.codec_readsBack (w : WidthRule) : WidthRule.codec.ReadsBack w := by
  apply Codec.ReadsBack.named
  cases w <;> rfl

/-- The numbers of the metrics are counts. -/
def Metrics.HasCounts (m : Metrics) : Prop := m.tabWidth ≤ maxCount

lemma Metrics.codec_readsBack {m : Metrics} (h : m.HasCounts) : Metrics.codec.ReadsBack m := by
  apply Codec.ReadsBack.record rfl (by decide)
  exact ⟨.count h, m.widthRule.codec_readsBack, trivial⟩

-- Nothing but the name of a field and its value: no space, and no mark at the end.
example : Metrics.codec.write .standard =
    "\x7b\"tab_width\":4,\"width_mode\":\"Chars\"\x7d".toList := by decide

/-- The numbers of the caret are counts. -/
structure Caret.HasCounts (c : Caret) : Prop where
  line : c.line ≤ maxCount
  column : c.column ≤ maxCount
  offset : c.offset ≤ maxCount

lemma Caret.codec_readsBack {c : Caret} (h : c.HasCounts) : Caret.codec.ReadsBack c := by
  apply Codec.ReadsBack.record rfl (by decide)
  exact ⟨.count h.line, .count h.column, .count h.offset, trivial⟩

lemma Snapshot.codec_readsBack {s : Snapshot} (h : s.caret.HasCounts) :
    Snapshot.codec.ReadsBack s := by
  apply Codec.ReadsBack.record rfl (by decide)
  exact ⟨.text s.content, Caret.codec_readsBack h, trivial⟩

/-- A string is no null. -/
lemma Json.Codec.ReadsBack.option_text (value : Option Text) :
    Codec.text.option.ReadsBack value :=
  .option (fun x _ => .text x) fun x _ => by simp [Codec.text, writeQuoted]

lemma Json.Codec.ReadsBack.option_char (value : Option Char) :
    Codec.char.option.ReadsBack value :=
  .option (fun c _ => .char c) fun c _ => by simp [Codec.char, writeQuoted]

lemma LineState.codec_readsBack (s : LineState) : LineState.codec.ReadsBack s := by
  apply Codec.ReadsBack.record rfl (by decide)
  exact ⟨.option_char s.openQuote, .flag s.inComment, trivial⟩

lemma PageSummary.codec_readsBack {p : PageSummary} (h : p.index ≤ maxCount) :
    PageSummary.codec.ReadsBack p := by
  apply Codec.ReadsBack.record rfl (by decide)
  exact ⟨.count h, .text p.title, .text p.content, trivial⟩

lemma BracketPair.codec_readsBack (p : BracketPair) : BracketPair.codec.ReadsBack p := by
  apply Codec.ReadsBack.record rfl (by decide)
  exact ⟨.char p.opener, .char p.closer, trivial⟩

lemma CommentMarkers.codec_readsBack (m : CommentMarkers) : CommentMarkers.codec.ReadsBack m := by
  apply Codec.ReadsBack.record rfl (by decide)
  exact ⟨.option_text m.line, .option_text m.blockStart, .option_text m.blockEnd, trivial⟩

lemma Language.codec_readsBack (l : Language) : Language.codec.ReadsBack l := by
  unfold Language.codec
  apply Codec.ReadsBack.record rfl (by decide)
  exact ⟨l.comments.codec_readsBack, .list fun c _ => .char c, .option_char l.escape,
    .list fun p _ => p.codec_readsBack, .list fun p _ => p.codec_readsBack, trivial⟩

/-- The numbers of the settings are counts. -/
structure Settings.HasCounts (s : Settings) : Prop where
  tabWidth : s.tabWidth ≤ maxCount
  undoLimit : s.undoLimit ≤ maxCount
  pause : s.pause ≤ maxCount

lemma Settings.codec_readsBack {s : Settings} (h : s.HasCounts) : Settings.codec.ReadsBack s := by
  unfold Settings.codec
  apply Codec.ReadsBack.record rfl (by decide)
  exact ⟨.count h.tabWidth, s.widthRule.codec_readsBack, .count h.undoLimit, .count h.pause,
    s.language.codec_readsBack, trivial⟩

/-- Settings that are read are checked. -/
lemma Settings.ofText_of_parse {text : Text} {s : Settings}
    (h : Settings.codec.parse text = .ok s) :
    Settings.ofText text =
      if s.tabWidth = 0 then .error (.invalid .zeroTabWidth)
      else if s.undoLimit = 0 then .error (.invalid .zeroUndoLimit)
      else .ok s := by
  rw [Settings.ofText, h]
  by_cases hwidth : s.tabWidth = 0
  · simp [Settings.error?, hwidth]
  · by_cases hlimit : s.undoLimit = 0
    · simp [Settings.error?, hwidth, hlimit]
    · simp [Settings.error?, hwidth, hlimit]

/-- Reading the form of a value gives the value again, for every kind of value that has a form and
all texts and characters in it, if its numbers are counts. The form of settings is accepted if their
tabs cover a cell and an edit can be undone; otherwise the first of the two that fails is named. -/
theorem forms_read_back :
    (∀ w : WidthRule, WidthRule.codec.parse (WidthRule.codec.write w) = .ok w) ∧
    (∀ m : Metrics, m.HasCounts → Metrics.codec.parse (Metrics.codec.write m) = .ok m) ∧
    (∀ c : Caret, c.HasCounts → Caret.codec.parse (Caret.codec.write c) = .ok c) ∧
    (∀ s : Snapshot, s.caret.HasCounts → Snapshot.codec.parse (Snapshot.codec.write s) = .ok s) ∧
    (∀ s : LineState, LineState.codec.parse (LineState.codec.write s) = .ok s) ∧
    (∀ p : PageSummary, p.index ≤ maxCount →
      PageSummary.codec.parse (PageSummary.codec.write p) = .ok p) ∧
    (∀ p : BracketPair, BracketPair.codec.parse (BracketPair.codec.write p) = .ok p) ∧
    (∀ m : CommentMarkers, CommentMarkers.codec.parse (CommentMarkers.codec.write m) = .ok m) ∧
    (∀ l : Language, Language.codec.parse (Language.codec.write l) = .ok l) ∧
    ∀ s : Settings, s.HasCounts → Settings.codec.parse (Settings.codec.write s) = .ok s ∧
      Settings.ofText (Settings.codec.write s) =
        if s.tabWidth = 0 then .error (.invalid .zeroTabWidth)
        else if s.undoLimit = 0 then .error (.invalid .zeroUndoLimit)
        else .ok s := by
  refine ⟨?_, ?_, ?_, ?_, ?_, ?_, ?_, ?_, ?_, ?_⟩
  · exact fun w => w.codec_readsBack.parse_write
  · exact fun m h => (Metrics.codec_readsBack h).parse_write
  · exact fun c h => (Caret.codec_readsBack h).parse_write
  · exact fun s h => (Snapshot.codec_readsBack h).parse_write
  · exact fun s => s.codec_readsBack.parse_write
  · exact fun p h => (PageSummary.codec_readsBack h).parse_write
  · exact fun p => p.codec_readsBack.parse_write
  · exact fun m => m.codec_readsBack.parse_write
  · exact fun l => l.codec_readsBack.parse_write
  · exact fun s h => ⟨(Settings.codec_readsBack h).parse_write,
      Settings.ofText_of_parse (Settings.codec_readsBack h).parse_write⟩

/-- The largest count, control characters, marks that are escaped, an empty marker and a character
that takes two units. -/
theorem forms_read_back_largest :
    let caret : Caret := ⟨1, maxCount, 0⟩
    let snapshot : Snapshot := ⟨['\x00', '"', '\\', '\x0b', '\n', '\x7f'], caret⟩
    let page : PageSummary := ⟨maxCount, [], ['/', '\u2028', '😀']⟩
    let language : Language :=
      ⟨⟨some [], none, some ['"']⟩, ['\t', '"'], none, [⟨'\\', ']'⟩], []⟩
    let settings : Settings := ⟨maxCount, .byScript, 0, 0, language⟩
    (Metrics.HasCounts ⟨0, .even⟩ ∧ caret.HasCounts ∧ page.index ≤ maxCount ∧
      settings.HasCounts) ∧
    Metrics.codec.parse (Metrics.codec.write ⟨0, .even⟩) = .ok ⟨0, .even⟩ ∧
    Caret.codec.parse (Caret.codec.write caret) = .ok caret ∧
    Snapshot.codec.parse (Snapshot.codec.write snapshot) = .ok snapshot ∧
    PageSummary.codec.parse (PageSummary.codec.write page) = .ok page ∧
    Settings.codec.parse (Settings.codec.write settings) = .ok settings ∧
    Settings.ofText (Settings.codec.write settings) = .error (.invalid .zeroUndoLimit) := by
  intro caret snapshot page language settings
  have hmetrics : Metrics.HasCounts ⟨0, .even⟩ := Nat.zero_le _
  have hcaret : caret.HasCounts := ⟨by decide, by decide, by decide⟩
  have hpage : page.index ≤ maxCount := by decide
  have hsettings : settings.HasCounts := ⟨by decide, by decide, by decide⟩
  obtain ⟨-, hm, hc, hs, -, hp, -, -, -, hset⟩ := forms_read_back
  obtain ⟨hparse, hchecked⟩ := hset settings hsettings
  exact ⟨⟨hmetrics, hcaret, hpage, hsettings⟩, hm _ hmetrics, hc caret hcaret, hs snapshot hcaret,
    hp page hpage, hparse, hchecked⟩

end EditingEngine
