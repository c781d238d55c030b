import EditingEngine.Json.Number
import EditingEngine.Json.Quoted

/-!
# JSON texts and what they stand for

A JSON text stands for a tree of values, and many texts stand for the same tree: space may be put
between any two tokens, characters of strings may be escaped, and exponents have several spellings.
The grammar is given here as a relation of trees and texts, without any reader. Half of a pair of
escaped units that stands alone is allowed in a string, which then stands for no text.
-/
namespace EditingEngine.Json

/-- What a JSON text stands for. Members are kept in their order, whatever their names are. -/
inductive Tree where
  | null
  | flag (value : Bool)
  | number (x : Numeral)
  /-- A string, with its text if it stands for one. -/
  | string (text : Option Text)
  | list (items : List Tree)
  | object (members : List (Option Text × Tree))

/-- A text of nothing but space. -/
def IsSpaces (t : Text) : Prop := ∀ c ∈ t, isSpace c = true

instance (t : Text) : Decidable (IsSpaces t) :=
  List.decidableBAll (isSpace · = true) t

/-- A run of digits with at least one digit. -/
structure IsDigits (t : Text) : Prop where
  ne_nil : t ≠ []
  digits : ∀ c ∈ t, c.isDigit = true

/-- The spellings of the digits behind the point. -/
inductive SpellsFraction : Text → Text → Prop where
  | none : SpellsFraction [] []
  | point {digits : Text} (h : IsDigits digits) : SpellsFraction digits ('.' :: digits)

/-- The spellings of an exponent. -/
inductive SpellsExponent : Option (Bool × Text) → Text → Prop where
  | none : SpellsExponent none []
  | plain {digits : Text} {mark : Char} (hmark : mark = 'e' ∨ mark = 'E') (h : IsDigits digits) :
      SpellsExponent (some (false, digits)) (mark :: digits)
  | plus {digits : Text} {mark : Char} (hmark : mark = 'e' ∨ mark = 'E') (h : IsDigits digits) :
      SpellsExponent (some (false, digits)) (mark :: '+' :: digits)
  | minus {digits : Text} {mark : Char} (hmark : mark = 'e' ∨ mark = 'E') (h : IsDigits digits) :
      SpellsExponent (some (true, digits)) (mark :: '-' :: digits)

/-- The spellings of a number. A zero is not followed by another digit in front of the point. -/
inductive SpellsNumeral : Numeral → Text → Prop where
  | mk {x : Numeral} {fraction exponent : Text} (hwhole : IsDigits x.whole)
      (hzero : x.whole.head? = some '0' → x.whole = ['0'])
      (hfraction : SpellsFraction x.fraction fraction)
      (hexponent : SpellsExponent x.exponent exponent) :
      SpellsNumeral x ((if x.negative then ['-'] else []) ++ (x.whole ++ (fraction ++ exponent)))

/-- Whether a text goes on with the second half of a pair. -/
def StartsTrailing (t : Text) : Prop :=
  ∃ a b c d n rest, t = '\\' :: 'u' :: a :: b :: c :: d :: rest ∧
    unitOf? a b c d = some n ∧ isTrailing n = true

/-- The spellings of a text between quotes. There is no text if half of a pair stands alone. -/
inductive SpellsChars : Option Text → Text → Prop where
  | nil : SpellsChars (some []) []
  | plain {s raw} (c : Char) (hquote : c ≠ '"') (hslash : c ≠ '\\') (hcontrol : isControl c = false)
      (h : SpellsChars s raw) : SpellsChars (s.map (c :: ·)) (c :: raw)
  | escape {s raw letter c} (hc : escaped? letter = some c) (h : SpellsChars s raw) :
      SpellsChars (s.map (c :: ·)) ('\\' :: letter :: raw)
  | unit {s raw a b c d n} (hn : unitOf? a b c d = some n) (htrail : isTrailing n = false)
      (hlead : isLeading n = false) (h : SpellsChars s raw) :
      SpellsChars (s.map (Char.ofNat n :: ·)) ('\\' :: 'u' :: a :: b :: c :: d :: raw)
  | pair {s raw a b c d n e f g h m} (hn : unitOf? a b c d = some n) (hlead : isLeading n = true)
      (hm : unitOf? e f g h = some m) (htrail : isTrailing m = true) (hraw : SpellsChars s raw) :
      SpellsChars (s.map (pairChar n m :: ·))
        ('\\' :: 'u' :: a :: b :: c :: d :: '\\' :: 'u' :: e :: f :: g :: h :: raw)
  | half {s raw a b c d n} (hn : unitOf? a b c d = some n)
      (halone : isTrailing n = true ∨ isLeading n = true ∧ ¬ StartsTrailing raw)
      (h : SpellsChars s raw) : SpellsChars none ('\\' :: 'u' :: a :: b :: c :: d :: raw)

/-- Whether a text between quotes has nothing to escape. -/
def isPlainText (raw : Text) : Bool := raw.all fun c => c != '"' && c != '\\' && !isControl c

theorem SpellsChars.of_isPlainText {raw : Text} (h : isPlainText raw = true) :
    SpellsChars (some raw) raw := by
  induction raw with
  | nil => exact .nil
  | cons c raw ih =>
    simp only [isPlainText, List.all_cons, Bool.and_eq_true, bne_iff_ne, Bool.not_eq_true'] at h
    obtain ⟨⟨⟨hquote, hslash⟩, hcontrol⟩, hraw⟩ := h
    exact .plain c hquote hslash hcontrol (ih hraw)

/-- What is spelled: a value, a member with its name, or one or more items or members with the
bracket behind them. -/
inductive Node where
  | value (v : Tree)
  | member (m : Option Text × Tree)
  | items (vs : List Tree)
  | members (ms : List (Option Text × Tree))

/-- The spellings of a node. No space is in front of a value or a member. -/
inductive Spells : Node → Text → Prop where
  | null : Spells (.value .null) ['n', 'u', 'l', 'l']
  | yes : Spells (.value (.flag true)) ['t', 'r', 'u', 'e']
  | no : Spells (.value (.flag false)) ['f', 'a', 'l', 's', 'e']
  | number {x t} (h : SpellsNumeral x t) : Spells (.value (.number x)) t
  | string {s raw} (h : SpellsChars s raw) : Spells (.value (.string s)) ('"' :: (raw ++ ['"']))
  | emptyList {s} (hs : IsSpaces s) : Spells (.value (.list [])) ('[' :: (s ++ [']']))
  | list {vs t} (h : Spells (.items vs) t) : Spells (.value (.list vs)) ('[' :: t)
  | emptyObject {s} (hs : IsSpaces s) : Spells (.value (.object [])) ('{' :: (s ++ ['}']))
  | object {ms t} (h : Spells (.members ms) t) : Spells (.value (.object ms)) ('{' :: t)
  | member {name raw s s' v t} (hname : SpellsChars name raw) (hs : IsSpaces s) (hs' : IsSpaces s')
      (h : Spells (.value v) t) :
      Spells (.member (name, v)) ('"' :: (raw ++ '"' :: (s ++ ':' :: (s' ++ t))))
  | lastItem {v s t s'} (hs : IsSpaces s) (h : Spells (.value v) t) (hs' : IsSpaces s') :
      Spells (.items [v]) (s ++ (t ++ (s' ++ [']'])))
  | nextItem {v vs s t s' u} (hs : IsSpaces s) (h : Spells (.value v) t) (hs' : IsSpaces s')
      (hmore : Spells (.items vs) u) : Spells (.items (v :: vs)) (s ++ (t ++ (s' ++ ',' :: u)))
  | lastMember {m s t s'} (hs : IsSpaces s) (h : Spells (.member m) t) (hs' : IsSpaces s') :
      Spells (.members [m]) (s ++ (t ++ (s' ++ ['}'])))
  | nextMember {m ms s t s' u} (hs : IsSpaces s) (h : Spells (.member m) t) (hs' : IsSpaces s')
      (hmore : Spells (.members ms) u) : Spells (.members (m :: ms)) (s ++ (t ++ (s' ++ ',' :: u)))

/-- A whole text that stands for a tree. -/
def Tree.IsText (v : Tree) (text : Text) : Prop :=
  ∃ s t s', IsSpaces s ∧ Spells (.value v) t ∧ IsSpaces s' ∧ text = s ++ (t ++ s')

end EditingEngine.Json
