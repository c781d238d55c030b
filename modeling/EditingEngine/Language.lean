import EditingEngine.Text.Lines

/-!
# Languages

A language is described by the few marks that the engine looks at: comment
markers, the quotes that open and close strings, the escape character inside
strings, and two lists of bracket pairs. The indentation pairs set the depth of
lines; the matching pairs are those a bracket is matched in, and may contain more,
since `<` and `>` are comparisons more often than brackets.
-/
namespace EditingEngine

/-- The markers of comments. A marker that is empty counts as missing. -/
structure CommentMarkers where
  line : Option Text
  blockStart : Option Text
  blockEnd : Option Text
  deriving DecidableEq, Repr

namespace CommentMarkers

def none : CommentMarkers := ⟨.none, .none, .none⟩

def lineOnly (line : Text) : CommentMarkers := ⟨some line, .none, .none⟩

def blockOnly (first last : Text) : CommentMarkers := ⟨.none, some first, some last⟩

def lineAndBlock (line first last : Text) : CommentMarkers := ⟨some line, some first, some last⟩

/-- The marker of line comments, if the language has them. -/
def line? (m : CommentMarkers) : Option Text := m.line.filter (!·.isEmpty)

/-- The markers of block comments, if the language has both of them. -/
def block? (m : CommentMarkers) : Option (Text × Text) :=
  match m.blockStart.filter (!·.isEmpty), m.blockEnd.filter (!·.isEmpty) with
  | some first, some last => some (first, last)
  | _, _ => .none

theorem line?_ne_nil {m : CommentMarkers} {marker : Text} (h : m.line? = some marker) :
    marker ≠ [] := by
  simp only [line?, Option.filter_eq_some_iff] at h
  simpa using h.2

theorem block?_ne_nil {m : CommentMarkers} {first last : Text} (h : m.block? = some (first, last)) :
    first ≠ [] ∧ last ≠ [] := by
  unfold block? at h
  split at h
  · next hs he =>
    cases h
    simp only [Option.filter_eq_some_iff] at hs he
    exact ⟨by simpa using hs.2, by simpa using he.2⟩
  · cases h

end CommentMarkers

/-- An opening bracket and the bracket that closes it. -/
structure BracketPair where
  opener : Char
  closer : Char
  deriving DecidableEq, Repr

namespace BracketPair

/-- The other bracket of the pair. A bracket that both opens and closes is its own. -/
def partner? (p : BracketPair) (c : Char) : Option Char :=
  if c = p.opener then some p.closer
  else if c = p.closer then some p.opener
  else none

/-- Whether a character is one of the pair. -/
def has (p : BracketPair) (c : Char) : Bool := p.opener == c || p.closer == c

theorem partner?_isSome (p : BracketPair) (c : Char) : (p.partner? c).isSome = p.has c := by
  unfold partner? has
  split
  · next h => simp [h]
  · next ho =>
    split
    · next h => simp [h]
    · next hc => simp [Ne.symm ho, Ne.symm hc]

end BracketPair

structure Language where
  comments : CommentMarkers
  quotes : List Char
  escape : Option Char
  indentPairs : List BracketPair
  matchPairs : List BracketPair
  deriving DecidableEq, Repr

namespace Language

/-- The default language. -/
def javaScript : Language where
  comments := .lineAndBlock ['/', '/'] ['/', '*'] ['*', '/']
  quotes := ['\'', '"', '\x60']
  escape := some '\\'
  indentPairs := [⟨'{', '}'⟩, ⟨'[', ']'⟩, ⟨'(', ')'⟩]
  matchPairs := [⟨'{', '}'⟩, ⟨'[', ']'⟩, ⟨'(', ')'⟩, ⟨'<', '>'⟩]

/-- Whether a character opens a string, and then closes it. -/
def isQuote (lang : Language) (c : Char) : Bool := lang.quotes.contains c

/-- Whether a character deepens the indentation. -/
def isOpener (lang : Language) (c : Char) : Bool := lang.indentPairs.any (·.opener == c)

/-- Whether a character ends a deeper level. -/
def isCloser (lang : Language) (c : Char) : Bool := lang.indentPairs.any (·.closer == c)

end Language

/-- The first of the pairs that a character belongs to. -/
def pairOf? (pairs : List BracketPair) (c : Char) : Option BracketPair := pairs.find? (·.has c)

end EditingEngine
