import SmallC.Proofs.Execution.Machine
import SmallC.Proofs.Words.Memory

/-! The 32-bit machine: what each instruction on words and bytes does to registers and memory. -/

namespace SmallC

/-- What a subtraction leaves behind for conditions. -/
structure Flags where
  /-- The difference is zero. -/
  zero : Bool
  /-- The difference borrows, the operands being unsigned. -/
  carry : Bool
  /-- The difference is negative. -/
  sign : Bool
  /-- The difference is out of range, the operands being signed. -/
  overflow : Bool

/-- The registers and the memory of the machine. -/
structure Processor where
  /-- The first register. -/
  eax : BitVec 32
  /-- The second register. -/
  ecx : BitVec 32
  /-- The third register. -/
  edx : BitVec 32
  /-- The base of the frame. -/
  ebp : BitVec 32
  /-- The end of the frame. -/
  esp : BitVec 32
  /-- The conditions of the last comparison, unless they are lost. -/
  flags : Option Flags
  /-- The byte at every address. -/
  memory : Memory

/-- Where names and constants stand in memory. -/
structure Layout where
  /-- The storage of a global name. -/
  globals : String → BitVec 32
  /-- The storage of a constant. -/
  constants : Label → BitVec 32

/-- Whether a condition holds, for the operations that note one. -/
def Opcode.condition? (flags : Flags) : Opcode → Option Bool
  | .sete => some flags.zero
  | .setne => some !flags.zero
  | .setl => some (flags.sign != flags.overflow)
  | .setge => some (flags.sign == flags.overflow)
  | .setle => some (flags.zero || flags.sign != flags.overflow)
  | .setg => some (!flags.zero && flags.sign == flags.overflow)
  | .setb => some flags.carry
  | .setae => some !flags.carry
  | .setbe => some (flags.carry || flags.zero)
  | .seta => some (!flags.carry && !flags.zero)
  | _ => none

/-- The conditions that comparing two words leaves. -/
def Flags.compare (left right : BitVec 32) : Flags where
  zero := left == right
  carry := left.ult right
  sign := (left - right).msb
  overflow := left.ssubOverflow right

namespace Processor

variable (layout : Layout) (state : Processor)

/-- The word in a register. -/
def word? : Register → Option (BitVec 32)
  | .eax => some state.eax
  | .ecx => some state.ecx
  | .edx => some state.edx
  | .ebp => some state.ebp
  | .esp => some state.esp
  | _ => none

/-- The address of an operand that is in memory. -/
def address? : Operand → Option (BitVec 32)
  | .immediate _ => none
  | .frame offset => some (state.ebp + BitVec.ofInt 32 offset)
  | .global name => some (layout.globals name)
  | .label label => some (layout.constants label)
  | .indirect register => state.word? register
  | .outgoing offset => some (state.esp + BitVec.ofNat 32 offset)

/-- The word that an instruction reads. -/
def getWord? : Argument → Option (BitVec 32)
  | .register register => state.word? register
  | .operand (.immediate value) => some (BitVec.ofInt 32 value)
  | .operand place => (state.address? layout place).map state.memory.word
  | _ => none

/-- The byte that an instruction reads. -/
def getByte? : Argument → Option (BitVec 8)
  | .register .al => some (state.eax.extractLsb' 0 8)
  | .register .cl => some (state.ecx.extractLsb' 0 8)
  | .operand (.immediate value) => some (BitVec.ofInt 8 value)
  | .operand place => (state.address? layout place).map state.memory
  | _ => none

/-- The state after a word has been stored. -/
def putWord? (value : BitVec 32) : Argument → Option Processor
  | .register .eax => some { state with eax := value }
  | .register .ecx => some { state with ecx := value }
  | .register .edx => some { state with edx := value }
  | .register .ebp => some { state with ebp := value }
  | .register .esp => some { state with esp := value }
  | .operand place => (state.address? layout place).map fun address =>
    { state with memory := state.memory.write address 4 value }
  | _ => none

/-- The state after a byte has been stored; the rest of a register stays. -/
def putByte? (value : BitVec 8) : Argument → Option Processor
  | .register .al => some { state with eax := state.eax.extractLsb' 8 24 ++ value }
  | .register .cl => some { state with ecx := state.ecx.extractLsb' 8 24 ++ value }
  | .operand place => (state.address? layout place).map fun address =>
    { state with memory := state.memory.write address 1 (value.setWidth 32) }
  | _ => none

/-- The state after arithmetic has changed its target. -/
def change? (operation : BitVec 32 → BitVec 32) (target : Argument) : Option Processor := do
  -- What arithmetic does to the conditions is never relied on.
  let old ← state.getWord? layout target
  { state with flags := none }.putWord? layout (operation old) target

/-- The state after a signed division of the double word in the third and first registers. -/
def divide? (divisor : BitVec 32) : Option Processor :=
  let dividend := (state.edx ++ state.eax : BitVec 64).toInt
  let quotient := dividend.tdiv divisor.toInt
  -- Dividing by zero and a quotient that is too large for its register are traps.
  if divisor = 0 ∨ quotient < -2 ^ 31 ∨ 2 ^ 31 ≤ quotient then none
  else some { state with
    eax := BitVec.ofInt 32 quotient
    edx := BitVec.ofInt 32 (dividend.tmod divisor.toInt)
    flags := none }

/-- The state after an instruction, unless it traps or is not one of this part of the machine. -/
def act? (instruction : Instruction) : Option Processor :=
  match instruction.opcode, instruction.arguments with
  | .movl, [source, target] => do state.putWord? layout (← state.getWord? layout source) target
  | .movb, [source, target] => do state.putByte? layout (← state.getByte? layout source) target
  | .movsbl, [source, target] => do
    state.putWord? layout ((← state.getByte? layout source).signExtend 32) target
  | .movzbl, [source, target] => do
    state.putWord? layout ((← state.getByte? layout source).setWidth 32) target
  | .leal, [.operand place, target] => do
    state.putWord? layout (← state.address? layout place) target
  | .addl, [source, target] => do
    let value ← state.getWord? layout source
    state.change? layout (· + value) target
  | .subl, [source, target] => do
    let value ← state.getWord? layout source
    state.change? layout (· - value) target
  | .imull, [source, target] => do
    let value ← state.getWord? layout source
    state.change? layout (· * value) target
  | .negl, [target] => state.change? layout (- ·) target
  | .cltd, [] => some { state with edx := if state.eax.msb then BitVec.allOnes 32 else 0 }
  | .idivl, [source] => do state.divide? (← state.getWord? layout source)
  | .cmpl, [source, target] => do
    let right ← state.getWord? layout source
    let left ← state.getWord? layout target
    return { state with flags := some (.compare left right) }
  | opcode, [target] => do
    let holds ← opcode.condition? (← state.flags)
    state.putByte? layout (if holds then 1 else 0) target
  | _, _ => none

end Processor

/-- The machine whose names and constants are laid out in the given way. -/
def Layout.machine (layout : Layout) : Machine Processor where
  act instruction state := state.act? layout instruction
  nonzero state := state.flags.map fun flags => (!flags.zero, state)

end SmallC
