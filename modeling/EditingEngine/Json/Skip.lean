import EditingEngine.Json.Number
import EditingEngine.Json.Quoted

/-!
# Skipping values

A value that nothing is read from is skipped, whatever it is. It still has to be
JSON, to any depth of nesting.
-/
namespace EditingEngine.Json

/-- Skip a name with its colon. -/
def skipName (text : Text) : Except Fault Text :=
  match skipSpace text with
  | [] => .error .truncated
  | '"' :: rest => do readColon (← skipChars rest)
  | _ :: _ => .error .malformed

mutual

/-- Skip a value. The first argument bounds the number of steps. -/
def skipValueWithin : Nat → Text → Except Fault Text
  | 0, _ => .error .truncated
  | steps + 1, text =>
    match skipSpace text with
    | [] => .error .truncated
    | 'n' :: rest => readWord ['u', 'l', 'l'] rest
    | 't' :: rest => readWord ['r', 'u', 'e'] rest
    | 'f' :: rest => readWord ['a', 'l', 's', 'e'] rest
    | '"' :: rest => skipChars rest
    | '[' :: rest =>
      match skipSpace rest with
      | ']' :: rest => .ok rest
      | rest => skipItemsWithin steps rest
    | '{' :: rest =>
      match skipSpace rest with
      | '}' :: rest => .ok rest
      | rest => skipMembersWithin steps rest
    | c :: rest =>
      if c == '-' || c.isDigit then skipNumber (c :: rest) else .error .malformed

/-- Skip one or more items and the bracket behind them. -/
def skipItemsWithin : Nat → Text → Except Fault Text
  | 0, _ => .error .truncated
  | steps + 1, text => do
    match skipSpace (← skipValueWithin steps text) with
    | [] => .error .truncated
    | ',' :: rest => skipItemsWithin steps rest
    | ']' :: rest => .ok rest
    | _ :: _ => .error .malformed

/-- Skip one or more members and the brace behind them. -/
def skipMembersWithin : Nat → Text → Except Fault Text
  | 0, _ => .error .truncated
  | steps + 1, text => do
    match skipSpace (← skipValueWithin steps (← skipName text)) with
    | [] => .error .truncated
    | ',' :: rest => skipMembersWithin steps rest
    | '}' :: rest => .ok rest
    | _ :: _ => .error .malformed

end

/-- Skip a value. Every second step takes a character at least, so twice the length of the text
is enough. -/
def skipValue (text : Text) : Except Fault Text := skipValueWithin (2 * text.length + 2) text

end EditingEngine.Json
