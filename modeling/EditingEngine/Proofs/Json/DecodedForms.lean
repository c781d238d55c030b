import EditingEngine.Json.Forms
import EditingEngine.Proofs.Json.DecodedRecords

/-!
# What settings are read from

Settings, languages, comment markers and bracket pairs are decoded from trees here, field by field
and with their standard values, and this is what is read from the texts of these trees.
-/
namespace EditingEngine

open Json

def WidthRule.ofTree? (v : Tree) : Option WidthRule :=
  v.name?.bind fun name => [even, byScript].find? (·.name == name)

def BracketPair.ofTree? (v : Tree) : Option BracketPair :=
  if v.isRecord 2 false then do
    let opener ← v.field? 0 "open".toList Tree.char? none
    let closer ← v.field? 1 "close".toList Tree.char? none
    return ⟨opener, closer⟩
  else none

def CommentMarkers.ofTree? (v : Tree) : Option CommentMarkers :=
  if v.isRecord 3 false then do
    let line ← v.field? 0 "line".toList (Tree.nullable? Tree.text?) (some .none)
    let blockStart ← v.field? 1 "block_start".toList (Tree.nullable? Tree.text?) (some .none)
    let blockEnd ← v.field? 2 "block_end".toList (Tree.nullable? Tree.text?) (some .none)
    return ⟨line, blockStart, blockEnd⟩
  else .none

def Language.ofTree? (v : Tree) : Option Language :=
  let std := Language.javaScript
  let pairs? := Tree.list? BracketPair.ofTree?
  if v.isRecord 5 true then do
    let comments ← v.field? 0 "comments".toList CommentMarkers.ofTree? (some std.comments)
    let quotes ← v.field? 1 "quotes".toList (Tree.list? Tree.char?) (some std.quotes)
    let escape ← v.field? 2 "escape".toList (Tree.nullable? Tree.char?) (some std.escape)
    let indentPairs ← v.field? 3 "indent_pairs".toList pairs? (some std.indentPairs)
    let matchPairs ← v.field? 4 "match_pairs".toList pairs? (some std.matchPairs)
    return ⟨comments, quotes, escape, indentPairs, matchPairs⟩
  else none

def Settings.ofTree? (v : Tree) : Option Settings :=
  let std := Settings.standard
  if v.isRecord 5 true then do
    let tabWidth ← v.field? 0 "tab_width".toList Tree.count? (some std.tabWidth)
    let widthRule ← v.field? 1 "width_mode".toList WidthRule.ofTree? (some std.widthRule)
    let undoLimit ← v.field? 2 "history_limit".toList Tree.count? (some std.undoLimit)
    let pause ← v.field? 3 "debounce_ms".toList Tree.count? (some std.pause)
    let language ← v.field? 4 "language".toList Language.ofTree? (some std.language)
    return ⟨tabWidth, widthRule, undoLimit, pause, language⟩
  else none

section

variable {α : Type} {codec : Codec α} {decode decode' : Tree → Option α}

lemma Json.Codec.Decodes.congr (h : codec.Decodes decode) (hdecode : ∀ v, decode v = decode' v) :
    codec.Decodes decode' := by
  obtain rfl : decode = decode' := funext hdecode
  exact h

/-- A whole text is read like the value in it. -/
lemma Json.Codec.Decodes.parse (h : codec.Decodes decode) {v : Tree} {text : Text}
    (htext : v.IsText text) : (codec.parse text).toOption = decode v := by
  obtain ⟨s, t, s', hs, hv, hs', rfl⟩ := htext
  have hends : EndsNumber s' := by
    simpa using endsNumber_spaces hs' endsNumber_nil
  have hread := h hv ((skipSpace_append hs _).trans (hv.skipSpace_value s')) hends
  have hend : skipSpace s' = [] := by
    simpa using skipSpace_append hs' []
  rw [Codec.parse, Reader.readAll, toOption_bind, hread]
  cases decode v with
  | none => rfl
  | some x => simp [readEnd, hend, bind, Except.bind, pure, Except.pure]; rfl

end

lemma WidthRule.codec_decodes : WidthRule.codec.Decodes WidthRule.ofTree? :=
  Codec.decodes_named _ _

lemma BracketPair.codec_decodes : BracketPair.codec.Decodes BracketPair.ofTree? := by
  unfold BracketPair.codec
  refine Codec.Decodes.congr (@Codec.Decodes.record _ [Char, Char] _
    (Tree.char?, Tree.char?, ())
    (by exact ⟨Codec.decodes_char, Codec.decodes_char, trivial⟩)
    (by decide) false _ _) fun v => ?_
  change Option.map _ (if v.isRecord 2 false then _ else none) = _
  rw [ofTree?]
  split
  · simp only [Fields.row?, Option.map_bind, Function.comp_def]
    rfl
  · rfl

lemma CommentMarkers.codec_decodes : CommentMarkers.codec.Decodes CommentMarkers.ofTree? := by
  have htext := Codec.Decodes.option Codec.decodes_text
  unfold CommentMarkers.codec
  refine Codec.Decodes.congr (@Codec.Decodes.record _ [Option Text, Option Text, Option Text] _
    (Tree.nullable? Tree.text?, Tree.nullable? Tree.text?, Tree.nullable? Tree.text?, ())
    (by exact ⟨htext, htext, htext, trivial⟩)
    (by decide) false _ _) fun v => ?_
  change Option.map _ (if v.isRecord 3 false then _ else .none) = _
  rw [ofTree?]
  split
  · simp only [Fields.row?, Option.map_bind, Function.comp_def]
    rfl
  · rfl

lemma Language.codec_decodes : Language.codec.Decodes Language.ofTree? := by
  have hpairs := Codec.Decodes.list BracketPair.codec_decodes
  unfold Language.codec
  refine Codec.Decodes.congr (@Codec.Decodes.record _
    [CommentMarkers, List Char, Option Char, List BracketPair, List BracketPair] _
    (CommentMarkers.ofTree?, Tree.list? Tree.char?, Tree.nullable? Tree.char?,
      Tree.list? BracketPair.ofTree?, Tree.list? BracketPair.ofTree?, ())
    (by exact ⟨CommentMarkers.codec_decodes, Codec.Decodes.list Codec.decodes_char,
      Codec.Decodes.option Codec.decodes_char, hpairs, hpairs, trivial⟩)
    (by decide) true _ _) fun v => ?_
  change Option.map _ (if v.isRecord 5 true then _ else none) = _
  rw [ofTree?]
  split
  · simp only [Fields.row?, Option.map_bind, Function.comp_def]
    rfl
  · rfl

lemma Settings.codec_decodes : Settings.codec.Decodes Settings.ofTree? := by
  unfold Settings.codec
  refine Codec.Decodes.congr (@Codec.Decodes.record _ [Nat, WidthRule, Nat, Nat, Language] _
    (Tree.count?, WidthRule.ofTree?, Tree.count?, Tree.count?, Language.ofTree?, ())
    (by exact ⟨Codec.decodes_count, WidthRule.codec_decodes, Codec.decodes_count,
      Codec.decodes_count, Language.codec_decodes, trivial⟩)
    (by decide) true _ _) fun v => ?_
  change Option.map _ (if v.isRecord 5 true then _ else none) = _
  rw [ofTree?]
  split
  · simp only [Fields.row?, Option.map_bind, Function.comp_def]
    rfl
  · rfl

end EditingEngine
