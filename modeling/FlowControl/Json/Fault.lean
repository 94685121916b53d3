import FlowControl.Decimal.Style
import FlowControl.Json.Number
import FlowControl.Text.Quoted
import FlowControl.Time.TimestampReader

/-!
# Why a JSON text is not the expected data

A text may break the grammar, end too early, or hold other data than expected. In the last
case the mismatch says what was found.
-/

namespace FlowControl.Json

/-- The start of a value: all of a simple one, or the bracket that opens a list or record. -/
inductive Head where
  /-- Nothing. -/
  | null
  /-- A truth value. -/
  | flag (value : Bool)
  /-- A number. -/
  | number (value : Number)
  /-- A string. -/
  | text (value : String)
  /-- The start of a list. -/
  | list
  /-- The start of a record. -/
  | record

/-- How data differ from what is expected. -/
inductive Mismatch where
  /-- A record lacks a field. -/
  | missingField (name : String)
  /-- A record has a field twice. -/
  | duplicateField (name : String)
  /-- A value is of another kind. -/
  | wrongKind (found : Head) (expected : String)
  /-- A number is of the right kind but out of range. -/
  | wrongValue (found : Head) (expected : String)
  /-- A list that stands for a record is too short. -/
  | wrongLength (found : Nat) (expected : String)
  /-- A string is no time stamp. -/
  | badStamp (fault : TimestampFault)

/-- Why a text is not the expected data. -/
inductive ReadFault where
  /-- The text is no JSON value. -/
  | text (fault : TextFault)
  /-- The data are not the expected ones. -/
  | mismatch (mismatch : Mismatch)

namespace Number

/-- A number as messages show it. -/
def describe : Number → String
  | word value => "integer `" ++ value.toNat.repr ++ "`"
  | negative magnitude => "integer `-" ++ magnitude.toNat.repr ++ "`"
  | real value => "floating point `" ++ NumberStyle.json.render value ++ "`"

end Number

namespace Head

/-- A value as messages show it. -/
def describe : Head → String
  | null => "null"
  | flag true => "boolean `true`"
  | flag false => "boolean `false`"
  | number value => value.describe
  | text value => "string " ++ Text.quoted value
  | list => "sequence"
  | record => "map"

end Head

namespace Mismatch

/-- The message of a mismatch. -/
def message : Mismatch → String
  | missingField name => "missing field `" ++ name ++ "`"
  | duplicateField name => "duplicate field `" ++ name ++ "`"
  | wrongKind found expected => "invalid type: " ++ found.describe ++ ", expected " ++ expected
  | wrongValue found expected => "invalid value: " ++ found.describe ++ ", expected " ++ expected
  | wrongLength found expected =>
    "invalid length " ++ found.repr ++ ", expected " ++ expected
  | badStamp fault => fault.message

end Mismatch

end FlowControl.Json
