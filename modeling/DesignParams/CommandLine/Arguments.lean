import DesignParams.Number.Literal
import DesignParams.Path
import DesignParams.Report.Output

/-!
# Command-line arguments

A command line names one command. Before the command stand options that any command takes; behind
it stand its own options and file, and again the options for any command, which then win. What
follows `--` is never an option.

A value is looked at only when the next argument that sets something is read, or at the end of its
part of the command line, so a later fault can come before that of a value.
-/
set_option autoImplicit false

namespace DesignParams

inductive Command where
  | scan (css : Option Path)
  | candidates
  | css (file : Path)
  | tokens (file : Path) (limit : Option Nat)
  | plan (css overrides : Option Path)
  | apply (css overrides : Option Path)
  | snapshot (css overrides : Option Path)
deriving DecidableEq, Repr

structure Arguments where
  root : Path
  format : OutputFormat
  verbose : Bool
  command : Command
deriving DecidableEq, Repr

inductive UsageFault where
  | helpAsked
  | versionAsked
  | nothingGiven
  | missingCommand
  | unknownCommand
  | unknownArgument
  | missingFile
  /-- A value is missing, empty or not among the possible ones. -/
  | invalidValue
  | invalidNumber
  | unneededValue
  | repeated
deriving DecidableEq, Repr

namespace Arguments

inductive CommandName where
  | scan
  | candidates
  | css
  | tokens
  | plan
  | apply
  | snapshot
deriving DecidableEq, Repr

namespace CommandName

def all : List CommandName :=
  [.scan, .candidates, .css, .tokens, .plan, .apply, .snapshot]

def text : CommandName → Text
  | .scan => "scan".toList
  | .candidates => "candidates".toList
  | .css => "css".toList
  | .tokens => "tokens".toList
  | .plan => "plan".toList
  | .apply => "apply".toList
  | .snapshot => "snapshot".toList

def ofText? (s : Text) : Option CommandName :=
  all.find? (·.text = s)

def takesFile : CommandName → Bool
  | .css | .tokens => true
  | _ => false

end CommandName

def helpName : Text :=
  "help".toList

inductive Slot where
  | root
  | output
  | css
  | overrides
  | limit
  | file
deriving DecidableEq, Repr

/-- The options that have a value in a part of the command line: before the command, or behind
it. -/
def slots : Option CommandName → List Slot
  | some .scan => [.root, .output, .css]
  | some .tokens => [.root, .output, .limit]
  | some .plan | some .apply | some .snapshot => [.root, .output, .css, .overrides]
  | _ => [.root, .output]

def Slot.name? : Slot → Option Text
  | .root => some "root".toList
  | .output => some "output".toList
  | .css => some "css".toList
  | .overrides => some "overrides".toList
  | .limit => some "limit".toList
  | .file => none

def Slot.letter? : Slot → Option Char
  | .output => some 'o'
  | _ => none

inductive Switch where
  | value (slot : Slot)
  | verbose
  | help
  | version
deriving DecidableEq, Repr

def switchOfName? (command : Option CommandName) (name : Text) : Option Switch :=
  match (slots command).find? (·.name? = some name) with
  | some slot => some (.value slot)
  | none =>
    if name = "verbose".toList then some .verbose
    else if name = "help".toList then some .help
    else if name = "version".toList ∧ command = none then some .version
    else none

def switchOfLetter? (command : Option CommandName) (letter : Char) : Option Switch :=
  match (slots command).find? (·.letter? = some letter) with
  | some slot => some (.value slot)
  | none =>
    if letter = 'v' then some .verbose
    else if letter = 'h' then some .help
    else if letter = 'V' ∧ command = none then some .version
    else none

structure Given where
  root : Option Path := none
  format : Option OutputFormat := none
  verbose : Bool := false
  css : Option Path := none
  overrides : Option Path := none
  limit : Option Nat := none
  file : Option Path := none
  /-- What comes next has been named, and perhaps its value. -/
  pending : Option (Slot × Option Text) := none
deriving DecidableEq, Repr

def formatNames : List (Text × OutputFormat) :=
  [("auto".toList, .text .plain), ("term".toList, .text .terminal), ("text".toList, .text .plain),
    ("json".toList, .json), ("yaml".toList, .yaml)]

def path? (value : Text) : Except UsageFault Path :=
  if value = [] then .error .invalidValue else .ok ⟨value⟩

def format? (value : Text) : Except UsageFault OutputFormat :=
  match formatNames.lookup value with
  | some format => .ok format
  | none => .error .invalidValue

/-- A natural number of 64 bits, which may carry a plus sign. -/
def number? (value : Text) : Except UsageFault Nat :=
  let digits := if value.head? = some '+' then value.drop 1 else value
  if digits.isEmpty || !digits.all isAsciiDigit || Quantity.digitsValue digits ≥ Nat.pow 2 64 then
    .error .invalidNumber
  else .ok (Quantity.digitsValue digits)

namespace Given

def isSet (g : Given) : Slot → Bool
  | .root => g.root.isSome
  | .output => g.format.isSome
  | .css => g.css.isSome
  | .overrides => g.overrides.isSome
  | .limit => g.limit.isSome
  | .file => g.file.isSome

def set (g : Given) (slot : Slot) (value : Text) : Except UsageFault Given :=
  if g.isSet slot then .error .repeated
  else
    match slot with
    | .root => (path? value).map fun v => { g with root := some v }
    | .output => (format? value).map fun v => { g with format := some v }
    | .css => (path? value).map fun v => { g with css := some v }
    | .overrides => (path? value).map fun v => { g with overrides := some v }
    | .limit => (number? value).map fun v => { g with limit := some v }
    | .file => (path? value).map fun v => { g with file := some v }

def settle (g : Given) : Except UsageFault Given :=
  match g.pending with
  | none => .ok g
  | some (_, none) => .error .invalidValue
  | some (slot, some value) => { g with pending := none }.set slot value

def awaitsValue (g : Given) : Bool :=
  match g.pending with
  | some (_, none) => true
  | _ => false

def lacksFile (g : Given) : Bool :=
  match g.pending with
  | some (.file, _) => false
  | _ => g.file.isNone

def turn (g : Given) (switch : Switch) (attached : Option Text) : Except UsageFault Given :=
  match switch, attached with
  | .value slot, some value => g.settle >>= fun g => g.set slot value
  | .value slot, none => g.settle.map fun g => { g with pending := some (slot, none) }
  | _, some _ => .error .unneededValue
  | .verbose, none =>
    g.settle >>= fun g => if g.verbose then .error .repeated else .ok { g with verbose := true }
  | .help, none => g.settle >>= fun _ => .error .helpAsked
  | .version, none => g.settle >>= fun _ => .error .versionAsked

def isEmpty (g : Given) : Bool :=
  g.root.isNone && g.format.isNone && !g.verbose

end Given

/-- An argument that begins with `--`, as a name and the value behind the first equals sign. -/
def splitLong (s : Text) : Text × Option Text :=
  match Text.splitOnce? ['='] s with
  | some (name, value) => (name, some value)
  | none => (s, none)

/-- Carries out the options of an argument of letters. What follows the letter of an option with a
value is its value. -/
def turnLetters (command : Option CommandName) (g : Given) : Text → Except UsageFault Given
  | [] => .ok g
  | letter :: rest =>
    match switchOfLetter? command letter with
    | none => .error .unknownArgument
    | some (.value slot) =>
      let attached :=
        match rest with
        | [] => none
        | '=' :: value => some value
        | value => some value
      g.turn (.value slot) attached
    | some switch =>
      match g.turn switch none with
      | .error e => .error e
      | .ok g => turnLetters command g rest

def excess (command : Option CommandName) (afterMark : Bool) (s : Text) : UsageFault :=
  match command with
  | some _ => .unknownArgument
  | none =>
    if afterMark && (s = helpName || (CommandName.ofText? s).isSome) then .unknownArgument
    else .unknownCommand

/-- Takes an argument that is no option: the value that is awaited, or the file. -/
def takePlain (command : Option CommandName) (g : Given) (afterMark : Bool) (s : Text) :
    Except UsageFault Given :=
  match g.pending, afterMark with
  | some (slot, none), false => .ok { g with pending := some (slot, some s) }
  | _, _ =>
    if command.any CommandName.takesFile && g.lacksFile then
      g.settle.map fun g => { g with pending := some (.file, some s) }
    else .error (excess command afterMark s)

def readHelp : List Text → UsageFault
  | [] => .helpAsked
  | [name] =>
    if name = helpName || (CommandName.ofText? name).isSome then .helpAsked else .unknownCommand
  | _ => .unknownCommand

/-- Reads one part of the command line, up to a command that begins the next one. -/
def readPart (command : Option CommandName) :
    Given → Bool → List Text → Except UsageFault (Given × Option (CommandName × List Text))
  | g, _, [] => .ok (g, none)
  | g, true, s :: rest =>
    match takePlain command g true s with
    | .error e => .error e
    | .ok g => readPart command g true rest
  | g, false, s :: rest =>
    let expectsCommand := command.isNone && !g.awaitsValue
    if expectsCommand && s = helpName then .error (readHelp rest)
    else
      match if expectsCommand then CommandName.ofText? s else none with
      | some name => .ok (g, some (name, rest))
      | none =>
        match s with
        | ['-', '-'] => readPart command g true rest
        | '-' :: '-' :: long =>
          let (name, attached) := splitLong long
          match switchOfName? command name with
          | none => .error .unknownArgument
          | some switch =>
            match g.turn switch attached with
            | .error e => .error e
            | .ok g => readPart command g false rest
        | '-' :: letter :: letters =>
          match turnLetters command g (letter :: letters) with
          | .error e => .error e
          | .ok g => readPart command g false rest
        | _ =>
          match takePlain command g false s with
          | .error e => .error e
          | .ok g => readPart command g false rest

def command? (name : CommandName) (g : Given) : Except UsageFault Command :=
  match name, g.file with
  | .scan, _ => .ok (.scan g.css)
  | .candidates, _ => .ok .candidates
  | .css, some file => .ok (.css file)
  | .tokens, some file => .ok (.tokens file g.limit)
  | .css, none | .tokens, none => .error .missingFile
  | .plan, _ => .ok (.plan g.css g.overrides)
  | .apply, _ => .ok (.apply g.css g.overrides)
  | .snapshot, _ => .ok (.snapshot g.css g.overrides)

def readCommand (name : CommandName) (args : List Text) : Except UsageFault (Given × Command) := do
  let (g, _) ← readPart (some name) {} false args
  let g ← g.settle
  let command ← command? name g
  return (g, command)

def withoutCommand (g : Given) : UsageFault :=
  if g.isEmpty then .nothingGiven else .missingCommand

def parse (args : List Text) : Except UsageFault Arguments := do
  match ← readPart none {} false args with
  | (before, none) =>
    let before ← before.settle
    .error (withoutCommand before)
  | (before, some (name, rest)) =>
    let (behind, command) ← readCommand name rest
    let before ← before.settle
    return {
      root := (behind.root <|> before.root).getD (.ofString ".")
      format := (behind.format <|> before.format).getD (.text .plain)
      verbose := behind.verbose || before.verbose
      command }

end Arguments

end DesignParams
