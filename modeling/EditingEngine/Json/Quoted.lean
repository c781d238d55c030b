import EditingEngine.Json.Reader

/-!
# Strings

Between two quotes stand characters other than control characters, and escapes. An
escape with four hexadecimal digits stands for a UTF-16 unit, so a character beyond
the first 65536 takes two of them, and half of such a pair alone is refused where
the string is kept. A string is written with the fewest escapes: for the quote, the
backslash and the control characters.
-/
namespace EditingEngine.Json

/-- The value of a hexadecimal digit. -/
def hexValue? (c : Char) : Option Nat :=
  if '0' ≤ c ∧ c ≤ '9' then some (c.toNat - '0'.toNat)
  else if 'a' ≤ c ∧ c ≤ 'f' then some (c.toNat - 'a'.toNat + 10)
  else if 'A' ≤ c ∧ c ≤ 'F' then some (c.toNat - 'A'.toNat + 10)
  else none

/-- The unit that four hexadecimal digits write. -/
def unitOf? (a b c d : Char) : Option Nat := do
  return (((← hexValue? a) * 16 + (← hexValue? b)) * 16 + (← hexValue? c)) * 16 + (← hexValue? d)

/-- What is wrong with a text that should start with four hexadecimal digits and does not: it has
no four bytes left, or they are not digits. -/
def hexFault (text : Text) : Fault :=
  if (String.ofList text).utf8ByteSize < 4 then .truncated else .malformed

/-- The character that a letter behind a backslash stands for. -/
def escaped? : Char → Option Char
  | '"' => some '"'
  | '\\' => some '\\'
  | '/' => some '/'
  | 'b' => some '\x08'
  | 'f' => some '\x0c'
  | 'n' => some '\n'
  | 'r' => some '\r'
  | 't' => some '\t'
  | _ => none

/-- Whether a unit is the first half of a pair. -/
def isLeading (unit : Nat) : Bool := 0xD800 ≤ unit && unit < 0xDC00

/-- Whether a unit is the second half of a pair. -/
def isTrailing (unit : Nat) : Bool := 0xDC00 ≤ unit && unit < 0xE000

/-- The character that a pair of units stands for. -/
def pairChar (leading trailing : Nat) : Char :=
  Char.ofNat ((leading - 0xD800) * 0x400 + (trailing - 0xDC00) + 0x10000)

def isControl (c : Char) : Bool := c.toNat < 0x20

/-- Put a character in front of what a reader of characters returns. -/
def consChar (c : Char) (r : Except Fault (Text × Text)) : Except Fault (Text × Text) :=
  r.map fun x => (c :: x.1, x.2)

/-- Read the characters of a string up to its closing quote. -/
def readChars : Text → Except Fault (Text × Text)
  | [] => .error .truncated
  | '"' :: rest => .ok ([], rest)
  | ['\\'] => .error .truncated
  | '\\' :: 'u' :: a :: b :: c :: d :: rest =>
    match unitOf? a b c d with
    | none => .error (hexFault (a :: b :: c :: d :: rest))
    | some unit =>
      if isTrailing unit then .error .malformed
      else if isLeading unit then
        match rest with
        | [] => .error .truncated
        | ['\\'] => .error .truncated
        | '\\' :: 'u' :: e :: f :: g :: h :: rest =>
          match unitOf? e f g h with
          | none => .error (hexFault (e :: f :: g :: h :: rest))
          | some second =>
            if isTrailing second then consChar (pairChar unit second) (readChars rest)
            else .error .malformed
        | '\\' :: 'u' :: short => .error (hexFault short)
        | _ => .error .malformed
      else consChar (Char.ofNat unit) (readChars rest)
  | '\\' :: 'u' :: short => .error (hexFault short)
  | '\\' :: letter :: rest =>
    match escaped? letter with
    | some c => consChar c (readChars rest)
    | none => .error .malformed
  | c :: rest => if isControl c then .error .malformed else consChar c (readChars rest)

/-- Skip the characters of a string up to its closing quote. Halves of pairs may stand alone. -/
def skipChars : Text → Except Fault Text
  | [] => .error .truncated
  | '"' :: rest => .ok rest
  | ['\\'] => .error .truncated
  | '\\' :: 'u' :: a :: b :: c :: d :: rest =>
    match unitOf? a b c d with
    | none => .error (hexFault (a :: b :: c :: d :: rest))
    | some _ => skipChars rest
  | '\\' :: 'u' :: short => .error (hexFault short)
  | '\\' :: letter :: rest =>
    match escaped? letter with
    | some _ => skipChars rest
    | none => .error .malformed
  | c :: rest => if isControl c then .error .malformed else skipChars rest

/-- The lower-case hexadecimal digit of a number below 16. -/
def hexDigit (n : Nat) : Char := Nat.digitChar n

/-- The form of a character inside a string. -/
def writeChar (c : Char) : Text :=
  if c = '"' then ['\\', '"']
  else if c = '\\' then ['\\', '\\']
  else if c = '\x08' then ['\\', 'b']
  else if c = '\x0c' then ['\\', 'f']
  else if c = '\n' then ['\\', 'n']
  else if c = '\r' then ['\\', 'r']
  else if c = '\t' then ['\\', 't']
  else if isControl c then
    ['\\', 'u', '0', '0', hexDigit (c.toNat / 16), hexDigit (c.toNat % 16)]
  else [c]

/-- The form of a string, quotes included. -/
def writeQuoted (text : Text) : Text := '"' :: (text.flatMap writeChar ++ ['"'])

end EditingEngine.Json
