import FlowControl.Options.Basic

/-!
# The command line

Arguments are read from left to right. An option's value may be attached to it by an equals
sign, and then it is looked at at once. A value that is an argument of its own may not start
with a dash, unless it is a single dash; it is put aside and looked at as soon as the next
option is recognised or the arguments are over. So what is no option at all is reported even
if the value before it cannot be read. After two dashes alone no argument is accepted.

The environment is read when all arguments are accepted, and a variable only if its option
was not given.
-/

namespace FlowControl

/-- An argument by its form. -/
inductive Argument where
  /-- Two dashes alone. -/
  | endOfOptions
  /-- Two dashes, a name and perhaps a value after an equals sign. -/
  | long (name : String) (value : Option String)
  /-- A dash and letters, the first of which decides. -/
  | short (letter : Char)
  /-- Any other text, a single dash for one. -/
  | plain
  deriving DecidableEq, Repr

namespace Argument

/-- A long argument after its dashes. -/
def ofLong (cs : List Char) : Argument :=
  let name := String.ofList (cs.takeWhile (· ≠ '='))
  match cs.dropWhile (· ≠ '=') with
  | [] => .long name none
  | _ :: value => .long name (some (String.ofList value))

/-- The form of an argument. -/
def ofChars : List Char → Argument
  | ['-', '-'] => .endOfOptions
  | '-' :: '-' :: cs => ofLong cs
  | '-' :: letter :: _ => .short letter
  | _ => .plain

end Argument

/-- What a name after two dashes, or a letter after one, stands for. -/
inductive Keyword where
  /-- An option that takes a value. -/
  | choice (choice : Choice)
  /-- An option that takes none. -/
  | switch (switch : Switch)
  /-- Help. -/
  | help
  /-- The version. -/
  | version
  deriving DecidableEq, Repr

namespace Keyword

/-- What a name stands for. Names are not abbreviated. -/
def ofName? (name : String) : Option Keyword :=
  match Choice.all.find? (·.name = name), Switch.all.find? (·.name = name) with
  | some found, _ => some (.choice found)
  | none, some found => some (.switch found)
  | none, none =>
    if name = "help" then some .help else if name = "version" then some .version else none

/-- What a letter stands for. -/
def ofLetter? (letter : Char) : Option Keyword :=
  if letter = 'h' then some .help else if letter = 'V' then some .version else none

end Keyword

/-- How far the command line has been read. -/
structure Progress where
  draft : Draft
  /-- The option whose value has not been looked at yet, and that value if it has come. -/
  pending : Option (Choice × Option String)
  /-- Whether two dashes alone have come. -/
  ended : Bool

namespace Progress

/-- Nothing has been read. -/
def start : Progress := ⟨.empty, none, false⟩

/-- Gives an option a value. Only capacities may be given again. -/
def give (draft : Draft) (choice : Choice) (text : String) : Except Interruption Draft :=
  if draft.has choice && decide (choice ≠ .peerCapacities) then .error (.repeated choice.name)
  else
    match draft.put? choice text with
    | some next => .ok next
    | none => .error (.badValue choice text)

/-- Looks at the value that was put aside. -/
def settle (progress : Progress) : Except Interruption Draft :=
  match progress.pending with
  | none => .ok progress.draft
  | some (choice, none) => .error (.missingValue choice)
  | some (choice, some text) => give progress.draft choice text

/-- Acts on an option that takes no value, or on a request. -/
def actOn (progress : Progress) : Keyword → Except Interruption Progress
  | .choice choice => do
    let draft ← progress.settle
    return { progress with draft := draft, pending := some (choice, none) }
  | .switch switch => do
    let draft ← progress.settle
    if draft.hasSwitch switch then throw (.repeated switch.name)
    return { progress with draft := draft.putSwitch switch true, pending := none }
  | .help => do
    let _ ← progress.settle
    throw .help
  | .version => do
    let _ ← progress.settle
    throw .version

/-- Reads one argument. -/
def step (progress : Progress) (argument : String) : Except Interruption Progress :=
  if progress.ended then .error (.unknownArgument argument)
  else
    match Argument.ofChars argument.toList with
    | .endOfOptions => .ok { progress with ended := true }
    | .long name value =>
      match Keyword.ofName? name, value with
      | none, _ => .error (.unknownArgument argument)
      | some (.choice choice), some text => do
        let draft ← progress.settle
        let next ← give draft choice text
        return { progress with draft := next, pending := none }
      | some _, some _ => .error (.unneededValue name)
      | some keyword, none => progress.actOn keyword
    | .short letter =>
      match Keyword.ofLetter? letter with
      | some keyword => progress.actOn keyword
      | none => .error (.unknownArgument argument)
    | .plain =>
      match progress.pending with
      | some (choice, none) => .ok { progress with pending := some (choice, some argument) }
      | _ => .error (.unknownArgument argument)

end Progress

/-- The texts of the environment's variables. -/
abbrev Environment := String → Option String

namespace Environment

/-- Gives an option the value of its variable, unless it has one. -/
def fillChoice (environment : Environment) (draft : Draft) (choice : Choice) :
    Except Interruption Draft :=
  if draft.has choice then .ok draft
  else
    match environment choice.environmentName with
    | none => .ok draft
    | some text =>
      match draft.put? choice text with
      | some next => .ok next
      | none => .error (.badValue choice text)

/-- Gives a switch the value of its variable, unless it has one. -/
def fillSwitch (environment : Environment) (draft : Draft) (switch : Switch) :
    Except Interruption Draft :=
  if draft.hasSwitch switch then .ok draft
  else
    match switch.environmentName?.bind environment with
    | none => .ok draft
    | some text =>
      if text = "true" then .ok (draft.putSwitch switch true)
      else if text = "false" then .ok (draft.putSwitch switch false)
      else .error (.badSwitch switch text)

/-- Gives all options without a value the values of their variables. -/
def fill (environment : Environment) (draft : Draft) : Except Interruption Draft := do
  let chosen ← Choice.all.foldlM environment.fillChoice draft
  Switch.all.foldlM environment.fillSwitch chosen

end Environment

namespace CommandLine

/-- The values that arguments give. -/
def read (arguments : List String) : Except Interruption Draft := do
  let progress ← arguments.foldlM Progress.step Progress.start
  progress.settle

/-- The settings that arguments and environment choose. -/
def parse (arguments : List String) (environment : Environment) :
    Except Interruption Settings := do
  let draft ← read arguments
  let filled ← environment.fill draft
  return filled.settings

end CommandLine

end FlowControl
