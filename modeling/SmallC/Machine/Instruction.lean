import SmallC.Program.Ty

/-! Instructions of the target: where a value is kept, how wide it is and what is done with it. -/

namespace SmallC

/-- How a value is moved around. -/
inductive Width where
  /-- Through a byte register. -/
  | byte
  /-- Through a word register. -/
  | long
  /-- Through the floating-point stack. -/
  | double
  deriving DecidableEq, Repr

namespace Width

/-- The width of values of the type; pointers, arrays and errors are words. -/
def of (type : Ty) : Width :=
  -- Anything that is no plain number is handled by its address.
  if type.isReal then .double else if type = .char then .byte else .long

/-- Bytes a value of the width takes. -/
def size : Width → Nat
  | .byte => 1
  | .long => 4
  | .double => 8

end Width

/-- The registers that generated code names. -/
inductive Register where
  /-- The low byte of the first register. -/
  | al
  /-- The low half of the first register. -/
  | ax
  /-- The first register. -/
  | eax
  /-- The low byte of the second register. -/
  | cl
  /-- The second register. -/
  | ecx
  /-- The third register. -/
  | edx
  /-- The base of the frame. -/
  | ebp
  /-- The end of the frame. -/
  | esp
  /-- The top of the floating-point stack. -/
  | st
  /-- The top of the floating-point stack, by number. -/
  | st0
  /-- The place below the top of the floating-point stack. -/
  | st1
  deriving DecidableEq, Repr

/-- The spelling of a register. -/
def Register.text : Register → String
  | .al => "%al"
  | .ax => "%ax"
  | .eax => "%eax"
  | .cl => "%cl"
  | .ecx => "%ecx"
  | .edx => "%edx"
  | .ebp => "%ebp"
  | .esp => "%esp"
  | .st => "%st"
  | .st0 => "%st(0)"
  | .st1 => "%st(1)"

/-- Local labels are numbered through the whole unit. -/
structure Label where
  /-- The number of the label. -/
  number : Nat
  deriving DecidableEq, Repr

/-- The spelling of a label. -/
def Label.text (label : Label) : String :=
  ".L" ++ toString label.number

/-- Where a value can be read. -/
inductive Operand where
  /-- In the instruction itself. -/
  | immediate (value : Int)
  /-- In the frame, relative to its base. -/
  | frame (offset : Int)
  /-- In the storage of a global name. -/
  | global (name : String)
  /-- In the storage of a literal. -/
  | label (label : Label)
  /-- At the address in a register. -/
  | indirect (register : Register)
  /-- Among the arguments of a call, relative to the end of the frame. -/
  | outgoing (offset : Nat)
  deriving DecidableEq, Repr

namespace Operand

/-- Whether the value is in the instruction itself. -/
def isImmediate : Operand → Bool
  | .immediate _ => true
  | _ => false

/-- The spelling of an operand, the given text before each global name. -/
def text (globalPrefix : String) : Operand → String
  | .immediate value => "$" ++ toString value
  | .frame offset => toString offset ++ "(%ebp)"
  | .global name => globalPrefix ++ name
  | .label mark => mark.text
  | .indirect register => "(" ++ register.text ++ ")"
  | .outgoing offset => toString offset ++ "(%esp)"

end Operand

/-- What an instruction names. -/
inductive Argument where
  /-- A register. -/
  | register (register : Register)
  /-- A value or its place. -/
  | operand (operand : Operand)
  /-- The target of a jump. -/
  | target (label : Label)
  /-- The function to call. -/
  | callee (name : String)
  /-- The size of a function's frame. -/
  | frameSize (name : String)
  deriving DecidableEq, Repr

instance : Coe Register Argument := ⟨.register⟩

instance : Coe Operand Argument := ⟨.operand⟩

/-- The spelling of an argument, the given text before each global name. -/
def Argument.text (globalPrefix : String) : Argument → String
  | .register named => named.text
  | .operand place => place.text globalPrefix
  | .target label => label.text
  | .callee name => globalPrefix ++ name
  | .frameSize name => "$" ++ globalPrefix ++ name ++ ".size"

/-- The operations that generated code uses. -/
inductive Opcode where
  /-- Store a word below the stack. -/
  | pushl
  /-- Take a word from the stack. -/
  | popl
  /-- Return to the caller. -/
  | ret
  /-- Call a function. -/
  | call
  /-- Go to a label. -/
  | jmp
  /-- Go to a label if equal. -/
  | je
  /-- Go to a label if different. -/
  | jne
  /-- Copy a byte. -/
  | movb
  /-- Copy a word. -/
  | movl
  /-- Widen a signed byte. -/
  | movsbl
  /-- Widen an unsigned byte. -/
  | movzbl
  /-- Take an address. -/
  | leal
  /-- Add bytes. -/
  | addb
  /-- Add words. -/
  | addl
  /-- Subtract bytes. -/
  | subb
  /-- Subtract words. -/
  | subl
  /-- Multiply words. -/
  | imull
  /-- Divide words. -/
  | idivl
  /-- Widen the dividend. -/
  | cltd
  /-- Negate a word. -/
  | negl
  /-- Compare words. -/
  | cmpl
  /-- Note whether equal. -/
  | sete
  /-- Note whether different. -/
  | setne
  /-- Note whether less, signed. -/
  | setl
  /-- Note whether greater, signed. -/
  | setg
  /-- Note whether less or equal, signed. -/
  | setle
  /-- Note whether greater or equal, signed. -/
  | setge
  /-- Note whether less, unsigned. -/
  | setb
  /-- Note whether greater, unsigned. -/
  | seta
  /-- Note whether less or equal, unsigned. -/
  | setbe
  /-- Note whether greater or equal, unsigned. -/
  | setae
  /-- Push a floating-point number. -/
  | fldl
  /-- Push one. -/
  | fld1
  /-- Push an integer. -/
  | fildl
  /-- Copy the floating-point top. -/
  | fstl
  /-- Pop the floating-point top. -/
  | fstpl
  /-- Pop the floating-point top into a place of the stack. -/
  | fstp
  /-- Pop the floating-point top as an integer, toward zero. -/
  | fisttpl
  /-- Negate the floating-point top. -/
  | fchs
  /-- Add to the floating-point top. -/
  | faddl
  /-- Add and pop. -/
  | faddp
  /-- Subtract from the floating-point top. -/
  | fsubl
  /-- Multiply the floating-point top. -/
  | fmull
  /-- Divide the floating-point top. -/
  | fdivl
  /-- Compare with the floating-point top and pop it. -/
  | fcompl
  /-- Compare the floating-point top with zero. -/
  | ftst
  /-- Copy the floating-point conditions. -/
  | fnstsw
  /-- Set the conditions. -/
  | sahf
  deriving DecidableEq, Repr

/-- The spelling of an operation. -/
def Opcode.text : Opcode → String
  | .pushl => "pushl"
  | .popl => "popl"
  | .ret => "ret"
  | .call => "call"
  | .jmp => "jmp"
  | .je => "je"
  | .jne => "jne"
  | .movb => "movb"
  | .movl => "movl"
  | .movsbl => "movsbl"
  | .movzbl => "movzbl"
  | .leal => "leal"
  | .addb => "addb"
  | .addl => "addl"
  | .subb => "subb"
  | .subl => "subl"
  | .imull => "imull"
  | .idivl => "idivl"
  | .cltd => "cltd"
  | .negl => "negl"
  | .cmpl => "cmpl"
  | .sete => "sete"
  | .setne => "setne"
  | .setl => "setl"
  | .setg => "setg"
  | .setle => "setle"
  | .setge => "setge"
  | .setb => "setb"
  | .seta => "seta"
  | .setbe => "setbe"
  | .setae => "setae"
  | .fldl => "fldl"
  | .fld1 => "fld1"
  | .fildl => "fildl"
  | .fstl => "fstl"
  | .fstpl => "fstpl"
  | .fstp => "fstp"
  | .fisttpl => "fisttpl"
  | .fchs => "fchs"
  | .faddl => "faddl"
  | .faddp => "faddp"
  | .fsubl => "fsubl"
  | .fmull => "fmull"
  | .fdivl => "fdivl"
  | .fcompl => "fcompl"
  | .ftst => "ftst"
  | .fnstsw => "fnstsw"
  | .sahf => "sahf"

/-- One instruction, its source arguments before its destination. -/
structure Instruction where
  /-- The operation. -/
  opcode : Opcode
  /-- What it names. -/
  arguments : List Argument := []
  deriving DecidableEq, Repr

end SmallC
