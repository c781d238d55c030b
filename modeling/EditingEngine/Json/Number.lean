import EditingEngine.Json.Reader

/-!
# Numbers

A number is read as digits, and its value is looked at afterwards. Only counts are
kept: natural numbers below two to the power 64, written without sign, fraction and
exponent. Every other number is valid as far as a double-precision number can hold
it, and a number too large for that is refused as malformed.
-/
namespace EditingEngine.Json

/-- The largest count. -/
def maxCount : Nat := 0xFFFFFFFFFFFFFFFF

/-- The value of a digit. -/
def digitValue (c : Char) : Nat := c.toNat - '0'.toNat

/-- A number as it is written. -/
structure Numeral where
  negative : Bool
  whole : Text
  /-- The digits behind the point; none if there is no point. -/
  fraction : Text
  /-- The sign and the digits of the exponent. -/
  exponent : Option (Bool × Text)
  deriving DecidableEq, Repr

namespace Numeral

/-- The leading digits as far as they form a count, and the number of digits behind them. -/
def absorb (n : Nat) : Text → Nat × Nat
  | [] => (n, 0)
  | c :: rest =>
    if n * 10 + digitValue c ≤ maxCount then absorb (n * 10 + digitValue c) rest
    else (n, rest.length + 1)

/-- The number cut to the leading digits that form a count, and the power of ten behind it. -/
def scientific (x : Numeral) : Nat × Int :=
  let (n, dropped) := absorb 0 x.whole
  let (m, unread) := absorb n x.fraction
  let shift : Int := match x.exponent with
    | none => 0
    | some (minus, digits) =>
      if minus then -(Nat.ofDigitChars 10 digits 0 : Int) else Nat.ofDigitChars 10 digits 0
  (m, dropped + unread - x.fraction.length + shift)

/-- The count that is written, if it is one. -/
def count? (x : Numeral) : Option Nat :=
  if x.negative || x.fraction != [] || x.exponent.isSome then none
  else if Nat.ofDigitChars 10 x.whole 0 ≤ maxCount then some (Nat.ofDigitChars 10 x.whole 0)
  else none

end Numeral

/-- The natural number with at most 53 leading binary digits nearest to `n`, the one with an even
last digit if two are as near. -/
def roundToDouble (n : Nat) : Nat :=
  let unit := Nat.pow 2 (n.log2 - 52)
  let digits := n / unit
  let rest := n % unit
  if unit < 2 * rest || (2 * rest == unit && digits % 2 == 1) then (digits + 1) * unit
  else digits * unit

/-- The least number that rounds to no double-precision number. -/
def doubleBound : Nat := Nat.pow 2 1024 - Nat.pow 2 970

/-- Whether a count times a power of ten is too large for a double-precision number. Each factor is
rounded, and so is the product. A count alone is never too large. -/
def overflows (n : Nat) (power : Int) : Bool :=
  if power ≤ 0 then false
  else if 308 < power then n != 0
  else doubleBound ≤ roundToDouble n * roundToDouble (Nat.pow 10 power.toNat)

def digitsOf (text : Text) : Text := text.takeWhile Char.isDigit

def afterDigits (text : Text) : Text := text.dropWhile Char.isDigit

/-- Read a run of digits with at least one digit. -/
def readDigits (text : Text) : Except Fault (Text × Text) :=
  match text with
  | [] => .error .truncated
  | c :: _ => if c.isDigit then .ok (digitsOf text, afterDigits text) else .error .malformed

/-- Read the digits in front of a point. A zero is not followed by another digit. -/
def readWhole (text : Text) : Except Fault (Text × Text) :=
  match text with
  | '0' :: rest =>
    if (digitsOf rest).isEmpty then .ok (['0'], rest) else .error .malformed
  | _ => readDigits text

/-- Read a point and the digits behind it, if there is a point. -/
def readFraction (text : Text) : Except Fault (Text × Text) :=
  match text with
  | '.' :: rest => readDigits rest
  | _ => .ok ([], text)

/-- Read an exponent, if there is one. -/
def readExponent (text : Text) : Except Fault (Option (Bool × Text) × Text) :=
  match text with
  | c :: rest =>
    if c == 'e' || c == 'E' then
      match rest with
      | '-' :: digits => (readDigits digits).map fun r => (some (true, r.1), r.2)
      | '+' :: digits => (readDigits digits).map fun r => (some (false, r.1), r.2)
      | digits => (readDigits digits).map fun r => (some (false, r.1), r.2)
    else .ok (none, text)
  | [] => .ok (none, text)

/-- Take a minus sign off the front of a text. -/
def readSign (text : Text) : Bool × Text :=
  match text with
  | '-' :: rest => (true, rest)
  | _ => (false, text)

/-- Read a number as it is written. -/
def readNumeral (text : Text) : Except Fault (Numeral × Text) := do
  let (negative, text) := readSign text
  let (whole, text) ← readWhole text
  let (fraction, text) ← readFraction text
  let (exponent, text) ← readExponent text
  return (⟨negative, whole, fraction, exponent⟩, text)

/-- Read a number, and refuse it if it is too large. -/
def readNumber (text : Text) : Except Fault (Numeral × Text) := do
  let (x, rest) ← readNumeral text
  let (n, power) := x.scientific
  if overflows n power then .error .malformed else .ok (x, rest)

/-- Skip a number. Its size does not matter, and a number that ends too early is malformed. -/
def skipNumber (text : Text) : Except Fault Text :=
  match readNumeral text with
  | .ok (_, rest) => .ok rest
  | .error _ => .error .malformed

/-- The decimal digits of a count. -/
def writeCount (n : Nat) : Text := Nat.toDigits 10 n

end EditingEngine.Json
