import SmallC.Source.Lexeme

/-! Failures: what stops a compilation, and in which words. -/

namespace SmallC

/-- Why a file could not be read or written. -/
inductive FileFault where
  /-- No file has the path. -/
  | notFound
  /-- The path leads through something that is not a directory. -/
  | notDirectory
  /-- The path names a directory. -/
  | isDirectory
  /-- The path, or a name in it, has too many bytes. -/
  | nameTooLong
  /-- There is no room for what is written. -/
  | noSpace
  /-- The bytes of the file are not text. -/
  | notText
  /-- Something else that the system explains and numbers. -/
  | other (reason : String) (code : Nat)
  deriving DecidableEq, Repr

/-- The message of a fault with a file. -/
def FileFault.message : FileFault → String
  | .notFound => "No such file or directory (os error 2)"
  | .notDirectory => "Not a directory (os error 20)"
  | .isDirectory => "Is a directory (os error 21)"
  | .nameTooLong => "File name too long (os error 36)"
  | .noSpace => "No space left on device (os error 28)"
  | .notText => "stream did not contain valid UTF-8"
  | .other reason code => reason ++ " (os error " ++ toString code ++ ")"

/-- Something that stops a compilation. -/
inductive Failure where
  /-- The characters of a line are at fault. -/
  | lexical (line : Nat) (fault : LexicalFault)
  /-- A token stands where the grammar has no place for it. -/
  | unexpectedToken (line : Nat) (text : String)
  /-- Statements or expressions are nested beyond the limit. -/
  | tooDeep (line limit : Nat)
  /-- A whole number does not fit a word. -/
  | integerRange (line : Nat) (text : String)
  /-- An array would take more bytes than an object may. -/
  | arrayTooLarge (line : Nat) (name : String)
  /-- A file is at fault. -/
  | file (fault : FileFault)
  deriving DecidableEq, Repr

namespace Failure

/-- The line a failure refers to, when it has one. -/
def line? : Failure → Option Nat
  | .lexical line _ | .unexpectedToken line _ | .tooDeep line _ | .integerRange line _
  | .arrayTooLarge line _ => some line
  | .file _ => none

/-- The message of a failure. -/
def message : Failure → String
  | .lexical line fault => located line fault.message
  | .unexpectedToken line text => located line ("syntax error at '" ++ text ++ "'")
  | .tooDeep line limit =>
    located line ("nesting exceeds the limit of " ++ toString limit ++ " levels")
  | .integerRange line text => located line ("integer literal '" ++ text ++ "' is out of range")
  | .arrayTooLarge line name => located line ("size of array '" ++ name ++ "' is too large")
  | .file fault => fault.message
where
  /-- The message of a failure on a line. -/
  located (line : Nat) (text : String) : String := "line " ++ toString line ++ ": " ++ text

end Failure

end SmallC
