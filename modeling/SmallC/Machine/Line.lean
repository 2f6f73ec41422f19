/-! Lines of assembly text. -/

namespace SmallC

/-- One line of assembly text. -/
inductive Line where
  /-- An operation and its arguments. -/
  | instruction (opcode : String) (arguments : List String)
  /-- A name for the place. -/
  | label (name : String)
  /-- An indented directive. -/
  | directive (name arguments : String)
  /-- Text that starts in the first column. -/
  | plain (text : String)
  /-- An empty line. -/
  | blank
  deriving DecidableEq, Repr

namespace Line

/-- The characters of a line, with the newline that ends it. -/
def text : Line → String
  | .instruction opcode [] => "\t" ++ opcode ++ "\n"
  | .instruction opcode arguments => "\t" ++ opcode ++ "\t" ++ ", ".intercalate arguments ++ "\n"
  | .label name => name ++ ":\n"
  | .directive name arguments => "\t" ++ name ++ "\t" ++ arguments ++ "\n"
  | .plain text => text ++ "\n"
  | .blank => "\n"

end Line

/-- The text of lines in order. -/
def linesText (lines : List Line) : String :=
  String.join (lines.map Line.text)

end SmallC
