import EditingEngine.History.Snapshot
import EditingEngine.Json.Record
import EditingEngine.Lexical.LineState
import EditingEngine.Notebook
import EditingEngine.Settings

/-!
# The JSON forms of the engine's values

Every value that a host stores or hands over has one form. Settings and languages
may leave out members and cut their lists short, and take the standard values for
what is missing; other records must be complete, except for members that may be
null. Settings that are read from a host are also checked.
-/
namespace EditingEngine

open Json

def WidthRule.name : WidthRule → Text
  | even => "Chars".toList
  | byScript => "Unicode".toList

def WidthRule.codec : Codec WidthRule := .named [even, byScript] name

def Metrics.codec : Codec Metrics :=
  .record (.cons (.required "tab_width".toList .count) <|
      .cons (.required "width_mode".toList WidthRule.codec) .nil) false
    (fun (tabWidth, widthRule, ()) => ⟨tabWidth, widthRule⟩)
    (fun m => (m.tabWidth, m.widthRule, ()))

def Caret.codec : Codec Caret :=
  .record (.cons (.required "line".toList .count) <|
      .cons (.required "column".toList .count) <|
      .cons (.required "char_index".toList .count) .nil) false
    (fun (line, column, offset, ()) => ⟨line, column, offset⟩)
    (fun c => (c.line, c.column, c.offset, ()))

def Snapshot.codec : Codec Snapshot :=
  .record (.cons (.required "content".toList .text) <|
      .cons (.required "caret".toList Caret.codec) .nil) false
    (fun (content, caret, ()) => ⟨content, caret⟩)
    (fun s => (s.content, s.caret, ()))

def LineState.codec : Codec LineState :=
  .record (.cons (.nullable "string_delim".toList .char) <|
      .cons (.required "in_block_comment".toList .flag) .nil) false
    (fun (openQuote, inComment, ()) => ⟨openQuote, inComment⟩)
    (fun s => (s.openQuote, s.inComment, ()))

def PageSummary.codec : Codec PageSummary :=
  .record (.cons (.required "index".toList .count) <|
      .cons (.required "title".toList .text) <|
      .cons (.required "content".toList .text) .nil) false
    (fun (index, title, content, ()) => ⟨index, title, content⟩)
    (fun p => (p.index, p.title, p.content, ()))

def BracketPair.codec : Codec BracketPair :=
  .record (.cons (.required "open".toList .char) <|
      .cons (.required "close".toList .char) .nil) false
    (fun (opener, closer, ()) => ⟨opener, closer⟩)
    (fun p => (p.opener, p.closer, ()))

def CommentMarkers.codec : Codec CommentMarkers :=
  .record (.cons (.nullable "line".toList .text) <|
      .cons (.nullable "block_start".toList .text) <|
      .cons (.nullable "block_end".toList .text) .nil) false
    (fun (line, blockStart, blockEnd, ()) => ⟨line, blockStart, blockEnd⟩)
    (fun m => (m.line, m.blockStart, m.blockEnd, ()))

def Language.codec : Codec Language :=
  let std := Language.javaScript
  .record (.cons (.withDefault "comments".toList CommentMarkers.codec std.comments) <|
      .cons (.withDefault "quotes".toList (.list .char) std.quotes) <|
      .cons (.withDefault "escape".toList (.option .char) std.escape) <|
      .cons (.withDefault "indent_pairs".toList (.list BracketPair.codec) std.indentPairs) <|
      .cons (.withDefault "match_pairs".toList (.list BracketPair.codec) std.matchPairs) .nil) true
    (fun (comments, quotes, escape, indentPairs, matchPairs, ()) =>
      ⟨comments, quotes, escape, indentPairs, matchPairs⟩)
    (fun l => (l.comments, l.quotes, l.escape, l.indentPairs, l.matchPairs, ()))

def Settings.codec : Codec Settings :=
  let std := Settings.standard
  .record (.cons (.withDefault "tab_width".toList .count std.tabWidth) <|
      .cons (.withDefault "width_mode".toList WidthRule.codec std.widthRule) <|
      .cons (.withDefault "history_limit".toList .count std.undoLimit) <|
      .cons (.withDefault "debounce_ms".toList .count std.pause) <|
      .cons (.withDefault "language".toList Language.codec std.language) .nil) true
    (fun (tabWidth, widthRule, undoLimit, pause, language, ()) =>
      ⟨tabWidth, widthRule, undoLimit, pause, language⟩)
    (fun s => (s.tabWidth, s.widthRule, s.undoLimit, s.pause, s.language, ()))

/-- Why a text gives no settings. -/
inductive SettingsFault where
  /-- The text is not the form of settings. -/
  | unreadable (fault : Fault)
  | invalid (error : SettingsError)
  deriving DecidableEq, Repr

/-- Read settings and check them. -/
def Settings.ofText (text : Text) : Except SettingsFault Settings :=
  match Settings.codec.parse text with
  | .error f => .error (.unreadable f)
  | .ok s =>
    match s.error? with
    | some e => .error (.invalid e)
    | none => .ok s

end EditingEngine
