import SmallC.Check.Checker
import SmallC.Report.Json
import SmallC.Report.Lines
import SmallC.Report.Path

/-! Diagnostics: what is told about a problem or a failure, for people and for programs. -/

namespace SmallC

/-- A place in a file. -/
structure Location where
  /-- The path of the file. -/
  file : String
  /-- The line, the first one being one. -/
  line : Nat
  /-- The column, the first one being one. -/
  column : Nat
  deriving DecidableEq, Repr

/-- A message with its place and with what helps. -/
structure Diagnostic where
  /-- What is wrong. -/
  message : String
  /-- Where it is, when that is known. -/
  location? : Option Location := none
  /-- What helps, line by line. -/
  hints : List String := []
  deriving DecidableEq, Repr

/-- A report of the checker as a diagnostic of a file. -/
def Report.diagnostic (report : Report) (file : String) : Diagnostic :=
  { message := report.problem.message
    location? := some ⟨file, report.position.line, report.position.column⟩
    hints := report.problem.hints }

/-- Files whose content may be quoted, the latest first. -/
abbrev Sources := List (String × String)

/-- The content of the first file that has the path. -/
def contentOf? (sources : Sources) (path : String) : Option String :=
  (sources.find? fun source => samePath source.1 path).map Prod.snd

/-- How a word is shown on a terminal. -/
inductive Emphasis where
  /-- What went wrong. -/
  | alarm
  /-- What frames the message. -/
  | frame
  /-- The message. -/
  | strong
  deriving DecidableEq, Repr

/-- What a terminal takes to go back to plain text. -/
def plainAgain : List Char := ['\x1b', '[', '0', 'm']

/-- What a terminal takes to show an emphasis. -/
def Emphasis.start : Emphasis → List Char
  | .alarm => ['\x1b', '[', '1', ';', '3', '1', 'm']
  | .frame => ['\x1b', '[', '1', ';', '3', '4', 'm']
  | .strong => ['\x1b', '[', '1', 'm']

/-- Start the emphasis again wherever the text goes back to plain. -/
def startAgain (emphasis : Emphasis) : List Char → List Char
  | '\x1b' :: '[' :: '0' :: 'm' :: rest =>
    plainAgain ++ emphasis.start ++ startAgain emphasis rest
  | character :: rest => character :: startAgain emphasis rest
  | [] => []

/-- A text with an emphasis, when colours are wanted. -/
def paint (colored : Bool) (emphasis : Emphasis) (text : String) : String :=
  -- A text that brings its own colours must not end the emphasis early.
  if colored then
    String.ofList (emphasis.start ++ startAgain emphasis text.toList ++ plainAgain)
  else text

/-- So many spaces. -/
def spaces (count : Nat) : String :=
  String.ofList (List.replicate count ' ')

/-- The quoted line with a mark under the column. -/
def quoteLine (colored : Bool) (location : Location) (line : String) : String :=
  -- The gutter is as wide as the number of the line.
  let number := toString location.line
  let gutter := spaces number.length
  let bar := paint colored .frame "|"
  gutter ++ " " ++ bar ++ "\n"
    ++ paint colored .frame number ++ " " ++ bar ++ " " ++ line ++ "\n"
    ++ gutter ++ " " ++ bar ++ " " ++ spaces (location.column - 1)
    ++ paint colored .alarm "^" ++ "\n"

/-- Where a diagnostic points to, with the line when its file is known. -/
def showLocation (colored : Bool) (sources : Sources) (location : Location) : String :=
  " " ++ paint colored .frame "-->" ++ " " ++ location.file ++ ":" ++ toString location.line
    ++ ":" ++ toString location.column ++ "\n"
    ++ match (contentOf? sources location.file).bind (lineText? · location.line) with
      | some line => quoteLine colored location line
      | none => ""

namespace Diagnostic

/-- A diagnostic for people. -/
def human (diagnostic : Diagnostic) (colored : Bool) (sources : Sources) : String :=
  paint colored .alarm "error" ++ ": " ++ paint colored .strong diagnostic.message ++ "\n"
    ++ ((diagnostic.location?.map (showLocation colored sources)).getD "")
    ++ String.join (diagnostic.hints.map fun hint =>
      paint colored .frame "help" ++ ": " ++ hint ++ "\n")

/-- A diagnostic for programs; an empty list of hints is left out. -/
def json (diagnostic : Diagnostic) : Json :=
  let place := match diagnostic.location? with
    | none => Json.null
    | some location => .object [("file", .string location.file), ("line", .number location.line),
        ("column", .number location.column)]
  let hints :=
    if diagnostic.hints.isEmpty then []
    else [("hints", Json.array (diagnostic.hints.map .string))]
  .object ([("level", .string "error"), ("message", .string diagnostic.message),
    ("location", place)] ++ hints)

end Diagnostic

end SmallC
