import FlowControl.Json.Document
import FlowControl.Json.Reader

/-!
# Records in JSON

A schema names the fields of a record and says what each of them holds. It determines both
how a record is written and how it is read. A record is read from named values, of which the
unknown ones are skipped, or from a list of all its values in order.
-/

namespace FlowControl.Json

/-- What a field holds. -/
inductive Kind where
  /-- A real number. -/
  | real
  /-- An unsigned 64-bit number, by the name that messages give to its type. -/
  | word (type : String)
  /-- A truth value. -/
  | flag
  /-- A string. -/
  | text
  /-- A real number or nothing. -/
  | optionalReal
  /-- A list of real numbers. -/
  | reals
  /-- A time stamp. -/
  | stamp
  deriving DecidableEq, Repr

namespace Kind

/-- The values that a field of a kind holds. -/
@[reducible] def Carrier : Kind → Type
  | real => Float
  | word _ => UInt64
  | flag => Bool
  | text => String
  | optionalReal => Option Float
  | reals => List Float
  | stamp => Timestamp

/-- What messages call a kind. -/
def describe : Kind → String
  | real => "f64"
  | word type => type
  | flag => "a boolean"
  | text => "a string"
  | optionalReal => "f64"
  | reals => "a sequence"
  | stamp => "an RFC 3339 formatted date and time string"

/-- A value as it is written. -/
def toJson : (kind : Kind) → kind.Carrier → Json
  | real, x => .real x
  | word _, n => .word n
  | flag, b => .flag b
  | text, s => .text s
  | optionalReal, none => .null
  | optionalReal, some x => .real x
  | reals, xs => .list (xs.map .real)
  | stamp, t => .text t.render

/-- The fault of finding another kind of value. -/
def wrong {α : Type} (kind : Kind) (found : Head) : Except ReadFault α :=
  .error (.mismatch (.wrongKind found kind.describe))

/-- The start of a value as the value of a kind other than a list. -/
def ofHead : (kind : Kind) → Head → Except ReadFault kind.Carrier
  | real, .number n => .ok n.toFloat
  | word _, .number (.word n) => .ok n
  | word type, .number (.negative m) =>
    .error (.mismatch (.wrongValue (.number (.negative m)) type))
  | flag, .flag b => .ok b
  | text, .text s => .ok s
  | optionalReal, .null => .ok none
  | optionalReal, .number n => .ok (some n.toFloat)
  | stamp, .text s => (Timestamp.parse s).mapError fun fault => .mismatch (.badStamp fault)
  | kind, head => kind.wrong head

/-- The start of the value at the front of a text, and what follows it. -/
def readHead (cs : List Char) : Except ReadFault (Head × List Char) :=
  (Head.read cs).mapError .text

/-- The rest of a list of real numbers, by at most `fuel` entries. -/
def readReals : (fuel : Nat) → (first : Bool) → List Char →
    Except ReadFault (List Float × List Char)
  | 0, _, _ => .error (.text .malformed)
  | fuel + 1, first, cs => do
    match ← (nextItem first cs).mapError .text with
    | .closing rest => return ([], rest)
    | .entry rest =>
      let (head, afterHead) ← readHead rest
      let x ← real.ofHead head
      let (xs, last) ← readReals fuel false afterHead
      return (x :: xs, last)

/-- The value of a kind at the front of a text, and what follows it. -/
def read : (kind : Kind) → List Char → Except ReadFault (kind.Carrier × List Char)
  | reals, cs => do
    let (head, rest) ← readHead cs
    match head with
    | .list => readReals (rest.length + 1) true rest
    | other => reals.wrong other
  | kind, cs => do
    let (head, rest) ← readHead cs
    let value ← kind.ofHead head
    return (value, rest)

/-- What a field of a kind holds when it is left out, if it may be. -/
def absent? : (kind : Kind) → Option kind.Carrier
  | optionalReal => some none
  | _ => none

end Kind

/-- A field of a record. -/
structure Field where
  name : String
  kind : Kind
  deriving DecidableEq, Repr

/-- One value for each field. -/
@[reducible] def Row : List Field → Type
  | [] => Unit
  | field :: fields => field.kind.Carrier × Row fields

/-- At most one value for each field. -/
@[reducible] def Slots : List Field → Type
  | [] => Unit
  | field :: fields => Option field.kind.Carrier × Slots fields

namespace Slots

/-- No value for any field. -/
def empty : (fields : List Field) → Slots fields
  | [] => ()
  | _ :: fields => (none, empty fields)

/-- The value at the front of a text, after a colon, put into the slot of the field with the
key. The slot must be empty. A value that belongs to no field is skipped. -/
def readInto (key : String) : (fields : List Field) → Slots fields → List Char →
    Except ReadFault (Slots fields × List Char)
  | [], (), cs => do
    let afterColon ← (readColon cs).mapError .text
    let rest ← (skipValue afterColon).mapError .text
    return ((), rest)
  | field :: fields, (slot, slots), cs =>
    if key = field.name then
      match slot with
      | some _ => .error (.mismatch (.duplicateField field.name))
      | none => do
        let afterColon ← (readColon cs).mapError .text
        let (value, rest) ← field.kind.read afterColon
        return ((some value, slots), rest)
    else do
      let (filled, rest) ← readInto key fields slots cs
      return ((slot, filled), rest)

/-- The rest of a record, by at most `fuel` entries. -/
def readEntries (fields : List Field) : (fuel : Nat) → (first : Bool) → Slots fields →
    List Char → Except ReadFault (Slots fields × List Char)
  | 0, _, _, _ => .error (.text .malformed)
  | fuel + 1, first, slots, cs => do
    match ← (nextKey first cs).mapError .text with
    | .closing rest => return (slots, rest)
    | .entry rest =>
      let (key, afterKey) ← (Text.read .plain rest).mapError .text
      let (filled, last) ← readInto (String.ofList key) fields slots afterKey
      readEntries fields fuel false filled last

/-- The values of all fields. The first field without a value that it needs is missing. -/
def toRow : (fields : List Field) → Slots fields → Except ReadFault (Row fields)
  | [], () => .ok ()
  | field :: fields, (slot, slots) =>
    match slot.or field.kind.absent? with
    | none => .error (.mismatch (.missingField field.name))
    | some value => (toRow fields slots).map fun row => (value, row)

end Slots

/-- A named record type. -/
structure Schema where
  /-- What messages call the type. -/
  name : String
  fields : List Field

namespace Schema

/-- What messages call a record of the type. -/
def describe (schema : Schema) : String := "struct " ++ schema.name

/-- What messages call a list of the values of a record of the type. -/
def describeList (schema : Schema) : String :=
  schema.describe ++ " with " ++ schema.fields.length.repr ++ " elements"

/-- The named values of a record as they are written. -/
def rowFields : (fields : List Field) → Row fields → List (String × Json)
  | [], () => []
  | field :: fields, (value, row) =>
    (field.name, field.kind.toJson value) :: rowFields fields row

/-- A record as it is written. -/
def toJson (schema : Schema) (row : Row schema.fields) : Json :=
  .record (rowFields schema.fields row)

/-- The values of the fields from the rest of a list, the first of them at place `index`. -/
def readItems (schema : Schema) : (fields : List Field) → (index : Nat) → List Char →
    Except ReadFault (Row fields × List Char)
  | [], _, cs => .ok ((), cs)
  | field :: fields, index, cs => do
    match ← (nextItem (index = 0) cs).mapError .text with
    | .closing _ => .error (.mismatch (.wrongLength index schema.describeList))
    | .entry rest =>
      let (value, afterValue) ← field.kind.read rest
      let (row, last) ← readItems schema fields (index + 1) afterValue
      return ((value, row), last)

/-- The record at the front of a text, and what follows it. -/
def read (schema : Schema) (cs : List Char) :
    Except ReadFault (Row schema.fields × List Char) := do
  let (head, rest) ← Kind.readHead cs
  match head with
  | .record =>
    let (slots, last) ←
      Slots.readEntries schema.fields (rest.length + 1) true (.empty schema.fields) rest
    let row ← slots.toRow
    return (row, last)
  | .list =>
    let (row, afterRow) ← schema.readItems schema.fields 0 rest
    let last ← (closeList afterRow).mapError .text
    return (row, last)
  | other => .error (.mismatch (.wrongKind other schema.describe))

/-- The record that a text is. -/
def decode (schema : Schema) (text : String) : Except ReadFault (Row schema.fields) := do
  let (row, rest) ← schema.read text.toList
  (expectEnd rest).mapError .text
  return row

end Schema

/-- The string that a text is. -/
def decodeText (text : String) : Except ReadFault String := do
  let (value, rest) ← Kind.text.read text.toList
  (expectEnd rest).mapError .text
  return value

end FlowControl.Json
