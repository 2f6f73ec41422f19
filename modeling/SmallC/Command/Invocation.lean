import SmallC.Compile
import SmallC.Source.Decimal

/-! Invocations: what the arguments of a command ask for. -/

namespace SmallC

/-- How diagnostics are written. -/
inductive MessageFormat where
  /-- For people. -/
  | human
  /-- For programs, one line each. -/
  | json
  deriving DecidableEq, Repr

/-- An option that takes a value. -/
inductive Setting where
  /-- The file for the assembly. -/
  | output
  /-- The text before global names. -/
  | globalPrefix
  /-- The nesting that is read. -/
  | limit
  /-- The format of diagnostics. -/
  | messageFormat
  deriving DecidableEq, Repr

/-- An option that stands alone. -/
inductive Switch where
  /-- Only check. -/
  | check
  /-- Fail on any problem. -/
  | deny
  /-- Say more about the work, which changes no answer. -/
  | verbose
  deriving DecidableEq, Repr

/-- What the arguments read so far have given, each at most once. -/
structure Given where
  /-- The file to compile. -/
  input? : Option String := none
  /-- The file for the assembly. -/
  output? : Option String := none
  /-- The text before global names. -/
  globalPrefix? : Option String := none
  /-- The nesting that is read. -/
  limit? : Option Nat := none
  /-- The format of diagnostics. -/
  messageFormat? : Option MessageFormat := none
  /-- Whether only checking is asked for. -/
  check : Bool := false
  /-- Whether any problem is a failure. -/
  deny : Bool := false

/-- The long name of a setting. -/
def Setting.named? : String → Option Setting
  | "output" => some .output
  | "global-prefix" => some .globalPrefix
  | "max-depth" => some .limit
  | "message-format" => some .messageFormat
  | _ => none

/-- The long name of a switch. -/
def Switch.named? : String → Option Switch
  | "check" => some .check
  | "deny-diagnostics" => some .deny
  | "verbose" => some .verbose
  | _ => none

/-- The name of a message format. -/
def MessageFormat.named? : String → Option MessageFormat
  | "human" => some .human
  | "json" => some .json
  | _ => none

/-- The bound of a count. -/
def countBound : Nat := 18446744073709551616

namespace Given

/-- Give the file to compile, once. -/
def setInput (given : Given) (value : String) : Option Given :=
  if given.input?.isSome || value.isEmpty then none else some { given with input? := value }

/-- Give a setting a value that suits it, once. -/
def set (given : Given) (setting : Setting) (value : String) : Option Given :=
  match setting with
  | .output =>
    if given.output?.isSome || value.isEmpty then none else some { given with output? := value }
  | .globalPrefix =>
    if given.globalPrefix?.isSome then none else some { given with globalPrefix? := value }
  | .limit =>
    if given.limit?.isSome then none
    else (decimalBelow? countBound value).map fun limit => { given with limit? := some limit }
  | .messageFormat =>
    if given.messageFormat?.isSome then none
    else (MessageFormat.named? value).map fun format => { given with messageFormat? := some format }

/-- Turn a switch on, once unless it counts. -/
def turnOn (given : Given) : Switch → Option Given
  | .check => if given.check then none else some { given with check := true }
  | .deny => if given.deny then none else some { given with deny := true }
  | .verbose => some given

end Given

/-- What one argument is by its first characters. -/
inductive ArgumentForm where
  /-- The mark after which every argument is a file. -/
  | separator
  /-- A long name, perhaps with a value after an equals sign. -/
  | long (name : String) (value? : Option String)
  /-- Short names in one word. -/
  | short (letters : List Char)
  /-- Anything else. -/
  | plain

/-- The text before the first equals sign, and the text after it. -/
def splitEquals : List Char → List Char × Option (List Char)
  | [] => ([], none)
  | '=' :: rest => ([], some rest)
  | character :: rest => (character :: (splitEquals rest).1, (splitEquals rest).2)

/-- The form of an argument; a lone hyphen is plain. -/
def formOf (argument : String) : ArgumentForm :=
  -- Only the first equals sign separates a name from a value.
  match argument.toList with
  | ['-', '-'] => .separator
  | '-' :: '-' :: rest =>
    .long (String.ofList (splitEquals rest).1) ((splitEquals rest).2.map String.ofList)
  | '-' :: letter :: rest => .short (letter :: rest)
  | _ => .plain

/-- Whether the argument can be the value of a setting before it. -/
def isValue (argument : String) : Bool :=
  -- What looks like an option is read as one, and leaves the setting without a value.
  match formOf argument with
  | .plain => true
  | _ => false

/-- A value that may follow a short name after an equals sign. -/
def withoutEquals : List Char → List Char
  | '=' :: rest => rest
  | letters => letters

/-- What a word of short names leaves to be done. -/
inductive ShortOutcome where
  /-- Every letter was a switch. -/
  | done (given : Given)
  /-- The last letter wants the next argument as its value. -/
  | wants (given : Given) (setting : Setting)
  /-- Some letter is unknown or was refused. -/
  | refused

/-- Read short names in one word; the rest of the word is the value of a setting. -/
def readLetters (given : Given) : List Char → ShortOutcome
  -- Switches come first; the letter of a setting takes all that is left.
  | [] => .done given
  | 'v' :: rest =>
    match given.turnOn .verbose with
    | some given => readLetters given rest
    | none => .refused
  | ['o'] => .wants given .output
  | 'o' :: value =>
    match given.set .output (String.ofList (withoutEquals value)) with
    | some given => .done given
    | none => .refused
  | _ => .refused

/-- Read the arguments, or refuse them. -/
def readArguments (given : Given) : List String → Option Given
  | [] => some given
  | argument :: rest =>
    match formOf argument with
    | .separator => rest.foldlM Given.setInput given
    | .plain => (given.setInput argument).bind (readArguments · rest)
    | .short letters =>
      match readLetters given letters with
      | .done given => readArguments given rest
      | .wants given setting => valueThen given setting rest
      | .refused => none
    | .long name value? =>
      match Switch.named? name, Setting.named? name, value? with
      | some switch, _, none => (given.turnOn switch).bind (readArguments · rest)
      | none, some setting, some value => (given.set setting value).bind (readArguments · rest)
      | none, some setting, none => valueThen given setting rest
      | _, _, _ => none
where
  /-- Take the next argument as the value of a setting. -/
  valueThen (given : Given) (setting : Setting) : List String → Option Given
    | [] => none
    | value :: rest =>
      if isValue value then (given.set setting value).bind (readArguments · rest) else none

/-- A complete invocation. -/
structure Invocation where
  /-- The file to compile. -/
  input : String
  /-- The file for the assembly, if it is not to be printed. -/
  output? : Option String
  /-- How diagnostics are written. -/
  messageFormat : MessageFormat
  /-- What the compilation depends on. -/
  options : Options

/-- The invocation that arguments ask for, or none if they are refused. -/
def Invocation.ofArguments? (arguments : List String) : Option Invocation := do
  let given ← readArguments {} arguments
  let input ← given.input?
  return {
    input
    output? := given.output?
    messageFormat := given.messageFormat?.getD .human
    options := {
      globalPrefix := given.globalPrefix?.getD ""
      limit := given.limit?.getD defaultLimit
      denyProblems := given.deny
      checkOnly := given.check } }

end SmallC
