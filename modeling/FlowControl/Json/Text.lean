/-!
# JSON strings

Writing and reading the strings of JSON. A written string escapes the quote, the backslash
and the control characters below the blank, and nothing else. A read string may escape any
character, one beyond the basic plane as a pair of surrogates.
-/

namespace FlowControl.Json

/-- Why a text cannot be read as a JSON value. -/
inductive TextFault where
  /-- The text breaks the grammar. -/
  | malformed
  /-- The text ends too early. -/
  | truncated
  deriving DecidableEq, Repr

namespace Text

/-- The hexadecimal digit of a number below sixteen. -/
def hexDigit (n : Nat) : Char := n.digitChar

/-- A character as it stands between the quotes. -/
def escape (c : Char) : List Char :=
  if c = '"' then ['\\', '"']
  else if c = '\\' then ['\\', '\\']
  else if c = '\x08' then ['\\', 'b']
  else if c = '\x09' then ['\\', 't']
  else if c = '\x0a' then ['\\', 'n']
  else if c = '\x0c' then ['\\', 'f']
  else if c = '\x0d' then ['\\', 'r']
  else if c.toNat < 0x20 then
    ['\\', 'u', '0', '0', hexDigit (c.toNat / 16), hexDigit (c.toNat % 16)]
  else [c]

/-- A string with its quotes. -/
def quote (cs : List Char) : List Char := '"' :: (cs.flatMap escape ++ ['"'])

/-- The value of a hexadecimal digit of either case. -/
def hexValue? (c : Char) : Option Nat :=
  if c.isDigit then some (c.toNat - '0'.toNat)
  else if 'a' ≤ c ∧ c ≤ 'f' then some (c.toNat - 'a'.toNat + 10)
  else if 'A' ≤ c ∧ c ≤ 'F' then some (c.toNat - 'A'.toNat + 10)
  else none

/-- The character that a letter after a backslash stands for. -/
def unescape? : Char → Option Char
  | '"' => some '"'
  | '\\' => some '\\'
  | '/' => some '/'
  | 'b' => some '\x08'
  | 'f' => some '\x0c'
  | 'n' => some '\x0a'
  | 'r' => some '\x0d'
  | 't' => some '\x09'
  | _ => none

/-- Whether a code unit is the first or the second half of a surrogate pair. -/
def isHighSurrogate (n : Nat) : Bool := decide (0xD800 ≤ n) && decide (n ≤ 0xDBFF)

@[inherit_doc isHighSurrogate]
def isLowSurrogate (n : Nat) : Bool := decide (0xDC00 ≤ n) && decide (n ≤ 0xDFFF)

/-- The character that a surrogate pair stands for. -/
def ofSurrogates (high low : Nat) : Char :=
  Char.ofNat (0x10000 + (high - 0xD800) * 0x400 + (low - 0xDC00))

/-- Where a reader stands in a string. -/
inductive Place where
  /-- Between characters. -/
  | plain
  /-- After a backslash. -/
  | escaped
  /-- In an escaped code unit, of which some digits are still missing, after the first half
  of a surrogate pair if there is one. -/
  | unit (high : Option Nat) (missing value : Nat)
  /-- After the first half of a surrogate pair. -/
  | pairBackslash (high : Nat)
  /-- After the first half of a surrogate pair and a backslash. -/
  | pairLetter (high : Nat)
  deriving DecidableEq, Repr

/-- Whether a text holds the four bytes that the digits of a code unit take. -/
def hasFourBytes (cs : List Char) : Bool :=
  decide (4 ≤ (cs.take 4).foldl (fun bytes c => bytes + c.utf8Size) 0)

/-- Whether a code unit is complete: the character or the half of a pair it stands for. -/
inductive UnitOutcome where
  /-- A character. -/
  | char (c : Char)
  /-- The first half of a pair. -/
  | high (n : Nat)
  /-- A half where it cannot stand. -/
  | lone
  deriving DecidableEq, Repr

/-- What a complete code unit stands for. -/
def closeUnit (high : Option Nat) (value : Nat) : UnitOutcome :=
  match high with
  | some first => if isLowSurrogate value then .char (ofSurrogates first value) else .lone
  | none =>
    if isLowSurrogate value then .lone
    else if isHighSurrogate value then .high value
    else .char (Char.ofNat value)

/-- The string whose inside starts the text, and what follows its closing quote. -/
def read : Place → List Char → Except TextFault (List Char × List Char)
  | _, [] => .error .truncated
  | .plain, c :: rest =>
    if c = '"' then .ok ([], rest)
    else if c = '\\' then read .escaped rest
    else if c.toNat < 0x20 then .error .malformed
    else (read .plain rest).map fun (cs, after) => (c :: cs, after)
  | .escaped, c :: rest =>
    if c = 'u' then
      if hasFourBytes rest then read (.unit none 4 0) rest else .error .truncated
    else
      match unescape? c with
      | some d => (read .plain rest).map fun (cs, after) => (d :: cs, after)
      | none => .error .malformed
  | .unit high missing value, c :: rest =>
    match hexValue? c with
    | none => .error .malformed
    | some digit =>
      if 1 < missing then read (.unit high (missing - 1) (16 * value + digit)) rest
      else
        match closeUnit high (16 * value + digit) with
        | .char d => (read .plain rest).map fun (cs, after) => (d :: cs, after)
        | .high n => read (.pairBackslash n) rest
        | .lone => .error .malformed
  | .pairBackslash high, c :: rest =>
    if c = '\\' then read (.pairLetter high) rest else .error .malformed
  | .pairLetter high, c :: rest =>
    if c = 'u' then
      if hasFourBytes rest then read (.unit (some high) 4 0) rest else .error .truncated
    else .error .malformed

/-- What follows the closing quote of a string that nobody looks at. Its surrogates need not
come in pairs. -/
def skip : Place → List Char → Except TextFault (List Char)
  | _, [] => .error .truncated
  | .plain, c :: rest =>
    if c = '"' then .ok rest
    else if c = '\\' then skip .escaped rest
    else if c.toNat < 0x20 then .error .malformed
    else skip .plain rest
  | .unit high missing value, c :: rest =>
    match hexValue? c with
    | none => .error .malformed
    | some _ => if 1 < missing then skip (.unit high (missing - 1) value) rest
                else skip .plain rest
  | _, c :: rest =>
    if c = 'u' then
      if hasFourBytes rest then skip (.unit none 4 0) rest else .error .truncated
    else if (unescape? c).isSome then skip .plain rest
    else .error .malformed

end Text

end FlowControl.Json
