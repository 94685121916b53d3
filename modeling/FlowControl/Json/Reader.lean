import FlowControl.Json.Fault

/-!
# Reading JSON values

The steps from which readers are made: blanks, the start of a value, the places between the
entries of a list or record, and whole values that nobody looks at. Each step takes a text
and returns what it found with the rest of the text.
-/

namespace FlowControl.Json

/-- Whether a character is one of the four blanks of JSON. -/
def isBlank (c : Char) : Bool := c = ' ' || c = '\n' || c = '\t' || c = '\r'

/-- A text without the blanks at its front. -/
def skipBlanks (cs : List Char) : List Char := cs.dropWhile isBlank

/-- What follows an expected word at the front of a text. -/
def readWord : (expected : List Char) → List Char → Except TextFault (List Char)
  | [], cs => .ok cs
  | _ :: _, [] => .error .truncated
  | e :: es, c :: cs => if e = c then readWord es cs else .error .malformed

namespace Head

/-- The start of the value at the front of a text, which begins without blanks. -/
def readTight : List Char → Except TextFault (Head × List Char)
  | [] => .error .truncated
  | c :: cs =>
    if c = 'n' then (readWord ['u', 'l', 'l'] cs).map fun rest => (.null, rest)
    else if c = 't' then (readWord ['r', 'u', 'e'] cs).map fun rest => (.flag true, rest)
    else if c = 'f' then (readWord ['a', 'l', 's', 'e'] cs).map fun rest => (.flag false, rest)
    else if c = '"' then
      (Text.read .plain cs).map fun (inside, rest) => (.text (String.ofList inside), rest)
    else if c = '[' then .ok (.list, cs)
    else if c = '\x7b' then .ok (.record, cs)
    else if c = '-' then (Number.read true cs).map fun (value, rest) => (.number value, rest)
    else if c.isDigit then
      (Number.read false (c :: cs)).map fun (value, rest) => (.number value, rest)
    else .error .malformed

/-- The start of the value at the front of a text, blanks before it set aside. -/
def read (cs : List Char) : Except TextFault (Head × List Char) := readTight (skipBlanks cs)

end Head

/-- Whether a list or record goes on, and the text from there. -/
inductive Continuation where
  /-- Another entry follows. -/
  | entry (rest : List Char)
  /-- The list or record is closed. -/
  | closing (rest : List Char)
  deriving DecidableEq, Repr

/-- The place before an entry of a list. Between entries there is a comma. -/
def nextItem (first : Bool) (cs : List Char) : Except TextFault Continuation :=
  match skipBlanks cs with
  | [] => .error .truncated
  | c :: rest =>
    if c = ']' then .ok (.closing rest)
    else if first then .ok (.entry (c :: rest))
    else if c = ',' then
      match skipBlanks rest with
      | [] => .error .truncated
      | d :: after => if d = ']' then .error .malformed else .ok (.entry (d :: after))
    else .error .malformed

/-- The end of a list. -/
def closeList (cs : List Char) : Except TextFault (List Char) :=
  match skipBlanks cs with
  | [] => .error .truncated
  | c :: rest => if c = ']' then .ok rest else .error .malformed

/-- The quote before the key of an entry. -/
def openKey : List Char → Except TextFault Continuation
  | [] => .error .truncated
  | c :: rest => if c = '"' then .ok (.entry rest) else .error .malformed

/-- The place before an entry of a record. Between entries there is a comma. The text of an
entry starts inside the quotes of its key. -/
def nextKey (first : Bool) (cs : List Char) : Except TextFault Continuation :=
  match skipBlanks cs with
  | [] => .error .truncated
  | c :: rest =>
    if c = '\x7d' then .ok (.closing rest)
    else if first then openKey (c :: rest)
    else if c = ',' then openKey (skipBlanks rest)
    else .error .malformed

/-- The colon between a key and its value. -/
def readColon (cs : List Char) : Except TextFault (List Char) :=
  match skipBlanks cs with
  | [] => .error .truncated
  | c :: rest => if c = ':' then .ok rest else .error .malformed

/-- Nothing but blanks may follow a value. -/
def expectEnd (cs : List Char) : Except TextFault Unit :=
  if (skipBlanks cs).isEmpty then .ok () else .error .malformed

/-- A bracket that is open. -/
inductive Bracket where
  /-- The bracket of a list. -/
  | list
  /-- The bracket of a record. -/
  | record
  deriving DecidableEq, Repr

/-- Where a reader stands that skips a value. -/
inductive SkipPlace where
  /-- Before a value. -/
  | value
  /-- After an opening bracket. -/
  | opened
  /-- Before a key. -/
  | key
  /-- After a value. -/
  | after
  deriving DecidableEq, Repr

namespace Bracket

/-- The character that closes a bracket. -/
def closing : Bracket → Char
  | list => ']'
  | record => '\x7d'

/-- What comes first in an entry. -/
def entryPlace : Bracket → SkipPlace
  | list => .value
  | record => .key

end Bracket

/-- What follows a simple value or an opening bracket, and the bracket. -/
def skipHead : List Char → Except TextFault (Option Bracket × List Char)
  | [] => .error .truncated
  | c :: cs =>
    if c = 'n' then (readWord ['u', 'l', 'l'] cs).map (none, ·)
    else if c = 't' then (readWord ['r', 'u', 'e'] cs).map (none, ·)
    else if c = 'f' then (readWord ['a', 'l', 's', 'e'] cs).map (none, ·)
    else if c = '"' then (Text.skip .plain cs).map (none, ·)
    else if c = '[' then .ok (some .list, cs)
    else if c = '\x7b' then .ok (some .record, cs)
    else if c = '-' then (Number.skip cs).map (none, ·)
    else if c.isDigit then (Number.skip (c :: cs)).map (none, ·)
    else .error .malformed

/-- What follows a key and its colon. The text starts without blanks. -/
def skipKey : List Char → Except TextFault (List Char)
  | [] => .error .truncated
  | c :: cs => if c = '"' then (Text.skip .plain cs).bind readColon else .error .malformed

/-- One step of skipping a value inside the brackets that are open, the innermost first: the
new place, the brackets that are open then and the rest of the text. -/
def skipStep (place : SkipPlace) (nesting : List Bracket) (cs : List Char) :
    Except TextFault (SkipPlace × List Bracket × List Char) :=
  match place, nesting, skipBlanks cs with
  | .value, _, tight => do
    let (bracket, rest) ← skipHead tight
    match bracket with
    | some opened => return (.opened, opened :: nesting, rest)
    | none => return (.after, nesting, rest)
  | .key, _, tight => (skipKey tight).map fun rest => (.value, nesting, rest)
  | _, [], tight => .ok (.after, [], tight)
  | _, _ :: _, [] => .error .truncated
  | .opened, inner :: outer, c :: rest =>
    if c = inner.closing then .ok (.after, outer, rest)
    else .ok (inner.entryPlace, inner :: outer, c :: rest)
  | .after, inner :: outer, c :: rest =>
    if c = inner.closing then .ok (.after, outer, rest)
    else if c = ',' then .ok (inner.entryPlace, inner :: outer, rest)
    else .error .malformed

/-- What follows a value that nobody looks at, by at most `fuel` steps. -/
def skipUpTo : (fuel : Nat) → SkipPlace → List Bracket → List Char →
    Except TextFault (List Char)
  | 0, _, _, _ => .error .malformed
  | fuel + 1, place, nesting, cs =>
    if place = .after ∧ nesting = [] then .ok cs
    else
      match skipStep place nesting cs with
      | .error fault => .error fault
      | .ok (next, brackets, rest) => skipUpTo fuel next brackets rest

/-- What follows the value at the front of a text, whatever it is. Every second step at least
takes a character. -/
def skipValue (cs : List Char) : Except TextFault (List Char) :=
  skipUpTo (2 * cs.length + 2) .value [] cs

end FlowControl.Json
