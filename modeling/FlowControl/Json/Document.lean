import FlowControl.Decimal.Style
import FlowControl.Json.Text

/-!
# JSON documents

The JSON values that the library writes, and their two written forms: compact, without any
blanks, and pretty, with one entry on a line. Numbers without digits are written `null`.
-/

namespace FlowControl

/-- A JSON value to be written. -/
inductive Json where
  /-- Nothing. -/
  | null
  /-- A truth value. -/
  | flag (value : Bool)
  /-- An unsigned whole number. -/
  | word (value : UInt64)
  /-- A real number. -/
  | real (value : Float)
  /-- A string. -/
  | text (value : String)
  /-- A list. -/
  | list (items : List Json)
  /-- Named values, in the order in which they are written. -/
  | record (fields : List (String × Json))

namespace Json

/-- A truth value as it is written. -/
def flagChars (value : Bool) : List Char :=
  if value then ['t', 'r', 'u', 'e'] else ['f', 'a', 'l', 's', 'e']

/-- Nothing, as it is written. -/
def nullChars : List Char := ['n', 'u', 'l', 'l']

/-- Texts with a separator between them. -/
def joined (separator : List Char) : List (List Char) → List Char
  | [] => []
  | [last] => last
  | first :: rest => first ++ separator ++ joined separator rest

/-- The start of a line at a depth: two blanks for each level. -/
def newLine (depth : Nat) : List Char := '\n' :: List.replicate (2 * depth) ' '

/-- Entries between brackets, each on a line of its own. Without entries the brackets stand
together. -/
def bracketed (opening closing : Char) (depth : Nat) (entries : List (List Char)) : List Char :=
  if entries.isEmpty then [opening, closing]
  else
    opening :: (newLine (depth + 1) ++ joined (',' :: newLine (depth + 1)) entries
      ++ newLine depth ++ [closing])

mutual

/-- A value without blanks. -/
def compact : Json → List Char
  | .null => nullChars
  | .flag value => flagChars value
  | .word value => Nat.toDigits 10 value.toNat
  | .real value => NumberStyle.json.chars value
  | .text value => Text.quote value.toList
  | .list items => '[' :: (joined [','] (compactItems items) ++ [']'])
  | .record fields => '\x7b' :: (joined [','] (compactFields fields) ++ ['\x7d'])

/-- The values of a list without blanks. -/
def compactItems : List Json → List (List Char)
  | [] => []
  | item :: items => item.compact :: compactItems items

/-- The fields of a record without blanks. -/
def compactFields : List (String × Json) → List (List Char)
  | [] => []
  | (name, value) :: fields => (Text.quote name.toList ++ ':' :: value.compact)
      :: compactFields fields

end

mutual

/-- A value with one entry on a line, from a depth on. -/
def pretty (depth : Nat) : Json → List Char
  | .null => nullChars
  | .flag value => flagChars value
  | .word value => Nat.toDigits 10 value.toNat
  | .real value => NumberStyle.json.chars value
  | .text value => Text.quote value.toList
  | .list items => bracketed '[' ']' depth (prettyItems (depth + 1) items)
  | .record fields => bracketed '\x7b' '\x7d' depth (prettyFields (depth + 1) fields)

/-- The values of a list with one entry on a line. -/
def prettyItems (depth : Nat) : List Json → List (List Char)
  | [] => []
  | item :: items => item.pretty depth :: prettyItems depth items

/-- The fields of a record with one entry on a line. -/
def prettyFields (depth : Nat) : List (String × Json) → List (List Char)
  | [] => []
  | (name, value) :: fields => (Text.quote name.toList ++ ':' :: ' ' :: value.pretty depth)
      :: prettyFields depth fields

end

/-- The compact text of a value. -/
def toCompact (value : Json) : String := String.ofList value.compact

/-- The pretty text of a value. -/
def toPretty (value : Json) : String := String.ofList (value.pretty 0)

end Json

end FlowControl
