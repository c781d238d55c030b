import EditingEngine.Language

/-!
# Matching brackets

The partner of a bracket is searched for by counting: every further bracket of the
same kind must be closed first. An opening bracket is matched to its right and a
closing one to its left, and a character that both opens and closes a pair has no
partner. Strings and comments are searched like any other text.
-/
namespace EditingEngine

/-- The number of characters passed before the one that brings the balance to zero, where `same`
raises the balance and `other` lowers it. -/
def balanceAt? (same other : Char) : Nat → Text → Option Nat
  | _, [] => none
  | depth, c :: rest =>
    if c = same then (balanceAt? same other (depth + 1) rest).map (· + 1)
    else if c = other then
      if depth = 1 then some 0 else (balanceAt? same other (depth - 1) rest).map (· + 1)
    else (balanceAt? same other depth rest).map (· + 1)

/-- The index of the partner of the bracket at an index. -/
def partnerOf? (pairs : List BracketPair) (text : Text) (index : Nat) : Option Nat := do
  let c ← text[index]?
  let pair ← pairOf? pairs c
  let other ← pair.partner? c
  if c = pair.opener then
    (balanceAt? c other 1 (text.drop (index + 1))).map (index + 1 + ·)
  else
    (balanceAt? c other 1 (text.take index).reverse).map (index - 1 - ·)

/-- A piece of a text, from `first` up to but not including `past`. -/
structure Span where
  first : Nat
  past : Nat
  deriving DecidableEq, Repr

/-- Whether the character at an index belongs to one of the pairs. -/
def isBracketAt (pairs : List BracketPair) (text : Text) (index : Nat) : Bool :=
  text[index]?.any fun c => pairs.any (·.has c)

/-- The bracket at a caret: the one in front of it, or else the one behind it. -/
def bracketNear? (pairs : List BracketPair) (text : Text) (caret : Nat) : Option Nat :=
  if 0 < caret && isBracketAt pairs text (caret - 1) then some (caret - 1)
  else if isBracketAt pairs text caret then some caret
  else none

/-- The span from the bracket at a caret to its partner, both included. -/
def matchSpan? (pairs : List BracketPair) (text : Text) (caret : Nat) : Option Span := do
  let here ← bracketNear? pairs text caret
  let there ← partnerOf? pairs text here
  some ⟨min here there, max here there + 1⟩

theorem balanceAt?_lt {same other : Char} {depth i : Nat} {text : Text}
    (h : balanceAt? same other depth text = some i) : i < text.length := by
  induction text generalizing depth i with
  | nil => simp [balanceAt?] at h
  | cons c rest ih =>
    have step : ∀ {d : Nat}, (balanceAt? same other d rest).map (· + 1) = some i →
        i < (c :: rest).length := by
      intro d hd
      obtain ⟨j, hj, rfl⟩ := Option.map_eq_some_iff.1 hd
      simpa using ih hj
    simp only [balanceAt?] at h
    split at h
    · exact step h
    · split at h
      · split at h
        · cases h; simp
        · exact step h
      · exact step h

end EditingEngine
