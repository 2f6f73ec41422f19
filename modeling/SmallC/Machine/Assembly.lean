import SmallC.Machine.Instruction
import SmallC.Machine.Line

/-! Assembly: what a unit is lowered to, and its text under a given beginning of global names. -/

namespace SmallC

/-- A constant that code refers to by a label. -/
inductive Literal where
  /-- The bytes of a text and a closing zero. -/
  | string (text : String)
  /-- A floating-point number as it is spelled. -/
  | real (spelling : String)
  deriving DecidableEq, Repr

/-- One item of assembly. -/
inductive Item where
  /-- An instruction. -/
  | code (instruction : Instruction)
  /-- The place of a local label. -/
  | mark (label : Label)
  /-- The switch to code. -/
  | textSection
  /-- The switch to data. -/
  | dataSection
  /-- The place where a function starts. -/
  | entry (name : String)
  /-- The size of a function's frame. -/
  | frameSize (name : String) (bytes : Nat)
  /-- A name that other units see. -/
  | visible (name : String)
  /-- Storage of a global name. -/
  | common (name : String) (bytes : Nat)
  /-- A labelled constant. -/
  | literal (label : Label) (value : Literal)
  /-- An empty line. -/
  | blank
  deriving DecidableEq, Repr

/-- One octal digit. -/
def octalDigit (value : Nat) : Char :=
  -- Only the lowest three bits count.
  Char.ofNat ('0'.toNat + value % 8)

/-- How a byte is written inside quotes: printable ones stand for themselves. -/
def quotedByte (byte : UInt8) : List Char :=
  if byte = 34 then ['\\', '"']
  else if byte = 92 then ['\\', '\\']
  else if byte = 10 then ['\\', 'n']
  else if byte = 9 then ['\\', 't']
  else if byte = 13 then ['\\', 'r']
  else if 32 ≤ byte ∧ byte ≤ 126 then [Char.ofNat byte.toNat]
  else ['\\', octalDigit (byte.toNat / 64), octalDigit (byte.toNat / 8), octalDigit byte.toNat]

/-- How the bytes of a text are written inside quotes. -/
def quotedText (text : String) : String :=
  -- Characters outside the printable range are written byte by byte.
  String.ofList (text.toUTF8.data.toList.flatMap quotedByte)

/-- The text of a labelled constant. -/
def Literal.text : Literal → String
  | .string text => ".asciz\t\"" ++ quotedText text ++ "\""
  | .real spelling => ".double\t" ++ spelling

/-- The line of an item, the given text before each global name. -/
def Item.line (globalPrefix : String) : Item → Line
  -- Every use of a global name is spelled like its definition.
  | .code instruction =>
    .instruction instruction.opcode.text (instruction.arguments.map (·.text globalPrefix))
  | .mark label => .label label.text
  | .textSection => .plain ".text"
  | .dataSection => .plain ".data"
  | .entry name => .label (globalPrefix ++ name)
  | .frameSize name bytes =>
    .directive ".set" (globalPrefix ++ name ++ ".size," ++ toString bytes)
  | .visible name => .directive ".globl" (globalPrefix ++ name)
  | .common name bytes => .directive ".comm" (globalPrefix ++ name ++ "," ++ toString bytes)
  | .literal label value => .plain (label.text ++ ":\t" ++ value.text)
  | .blank => .blank

/-- The text of items in order, the given text before each global name. -/
def assemblyText (globalPrefix : String) (items : List Item) : String :=
  linesText (items.map (·.line globalPrefix))

end SmallC
