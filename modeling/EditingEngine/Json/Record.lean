import EditingEngine.Json.Codec

/-!
# Reading and writing records

A record is written as an object with its fields in order. It is read from an
object with its members in any order, where members of other names are skipped, or
from a list with its fields in order. A field may have a value that stands for a
missing member. A list may be cut short only for records that say so: their missing
fields take these values too. No member may occur twice.
-/
namespace EditingEngine.Json

/-- One value of each type. -/
def Row : List Type → Type
  | [] => Unit
  | α :: types => α × Row types

/-- At most one value of each type. -/
def Slots : List Type → Type
  | [] => Unit
  | α :: types => Option α × Slots types

namespace Slots

def empty : (types : List Type) → Slots types
  | [] => ()
  | _ :: types => (none, empty types)

end Slots

structure Field (α : Type) where
  name : Text
  codec : Codec α
  /-- The value that stands for a missing member, if the member may be missing. -/
  default? : Option α

namespace Field

/-- A member that must be there. -/
def required {α : Type} (name : Text) (codec : Codec α) : Field α := ⟨name, codec, none⟩

/-- A member that is null if it is missing. -/
def nullable {α : Type} (name : Text) (codec : Codec α) : Field (Option α) :=
  ⟨name, codec.option, some none⟩

/-- A member with a default value. -/
def withDefault {α : Type} (name : Text) (codec : Codec α) (value : α) : Field α :=
  ⟨name, codec, some value⟩

end Field

/-- The fields of a record, in order. -/
inductive Fields : List Type → Type 1 where
  | nil : Fields []
  | cons {α : Type} {types : List Type} (field : Field α) (rest : Fields types) :
      Fields (α :: types)

namespace Fields

/-- The row of the slots, if all of them are filled. -/
def complete? : {types : List Type} → Fields types → Slots types → Option (Row types)
  | _, nil, () => some ()
  | _, cons _ rest, (slot, slots) => do return (← slot, ← rest.complete? slots)

/-- The row of the slots and of the values that stand for missing members. -/
def fill? : {types : List Type} → Fields types → Slots types → Option (Row types)
  | _, nil, () => some ()
  | _, cons field rest, (slot, slots) => do return (← slot <|> field.default?, ← rest.fill? slots)

/-- Read the rest of a member whose name has been read. -/
def readMember : {types : List Type} → Fields types → Text → Slots types → Reader (Slots types)
  | _, nil, _, slots => fun text => do return (slots, ← skipValue (← readColon text))
  | _, cons field rest, name, (slot, slots) => fun text =>
    if name = field.name then
      match slot with
      | some _ => .error .mismatch
      | none => do
        let (value, text) ← field.codec.read (← readColon text)
        return ((some value, slots), text)
    else do
      let (slots, text) ← rest.readMember name slots text
      return ((slot, slots), text)

/-- Read one or more members and the brace behind them. The number bounds the members. -/
def readMembers {types : List Type} (fields : Fields types) :
    Nat → Slots types → Text → Except Fault (Slots types × Text)
  | 0, _, _ => .error .truncated
  | bound + 1, slots, text => do
    let (name, rest) ← readName text
    let (slots, rest) ← fields.readMember name slots rest
    match skipSpace rest with
    | [] => .error .truncated
    | '}' :: rest => return (slots, rest)
    | ',' :: rest => readMembers fields bound slots rest
    | _ :: _ => .error .malformed

/-- Read what follows the brace of an object. -/
def readObject {types : List Type} (fields : Fields types) (text : Text) :
    Except Fault (Slots types × Text) :=
  match skipSpace text with
  | '}' :: rest => .ok (Slots.empty types, rest)
  | rest => fields.readMembers rest.length (Slots.empty types) rest

/-- Read the elements of a list in the order of the fields, and the bracket behind them. A comma
stands in front of every element but the first. -/
def readElements : {types : List Type} → Fields types → (first : Bool) → Reader (Slots types)
  | _, nil, _ => fun text =>
    match skipSpace text with
    | [] => .error .truncated
    | ']' :: rest => .ok ((), rest)
    | _ :: _ => .error .malformed
  | α :: types, cons field rest, first => fun text =>
    let element (text : Text) : Except Fault (Slots (α :: types) × Text) := do
      let (value, text) ← field.codec.read text
      let (slots, text) ← rest.readElements false text
      return ((some value, slots), text)
    match skipSpace text with
    | [] => .error .truncated
    | ']' :: text => .ok (Slots.empty (α :: types), text)
    | c :: text =>
      if first then element (c :: text)
      else if c = ',' then element text
      else .error .malformed

/-- The members of an object, in order. -/
def writeMembers : {types : List Type} → Fields types → Row types → List Text
  | _, nil, () => []
  | _, cons field rest, (value, row) =>
    (writeQuoted field.name ++ ':' :: field.codec.write value) :: rest.writeMembers row

end Fields

/-- The value that is there, or a mismatch. -/
def present {α : Type} : Option α → Except Fault α
  | some value => .ok value
  | none => .error .mismatch

/-- Read the row of a record. -/
def readRow {types : List Type} (fields : Fields types) (shortLists : Bool) (text : Text) :
    Except Fault (Row types × Text) :=
  match skipSpace text with
  | '{' :: rest => do
    let (slots, rest) ← fields.readObject rest
    return (← present (fields.fill? slots), rest)
  | '[' :: rest => do
    let (slots, rest) ← fields.readElements true rest
    let row := if shortLists then fields.fill? slots else fields.complete? slots
    return (← present row, rest)
  | _ => .error (misfit text)

/-- Records with the given fields. -/
def Codec.record {α : Type} {types : List Type} (fields : Fields types) (shortLists : Bool)
    (make : Row types → α) (parts : α → Row types) : Codec α where
  read text := do
    let (row, rest) ← readRow fields shortLists text
    return (make row, rest)
  write value := '{' :: (commaSeparated (fields.writeMembers (parts value)) ++ ['}'])

end EditingEngine.Json
