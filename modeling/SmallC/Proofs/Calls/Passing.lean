import Mathlib
import SmallC.Proofs.Lowering.Shape

/-! Passing arguments: which slots of the outgoing area are written, in which order, and how wide. -/

namespace SmallC

/-- The outgoing slot that an operand names. -/
def Operand.slot? : Operand → Option Nat
  | .outgoing offset => some offset
  | _ => none

/-- The outgoing slot that an argument of an instruction names. -/
def Argument.slot? : Argument → Option Nat
  | .operand place => place.slot?
  | _ => none

/-- How many bytes an operation moves. -/
def Opcode.bytes : Opcode → Nat
  -- The floating-point moves without a word in their name are those of full numbers.
  | .fldl | .fstl | .fstpl => 8
  | .movb | .movsbl | .addb | .subb => 1
  | _ => 4

/-- The outgoing slot that an item names at all, with the bytes that are moved. -/
def Item.slot? : Item → Option (Nat × Nat)
  | .code instruction =>
    (instruction.arguments.findSome? Argument.slot?).map (·, instruction.opcode.bytes)
  | _ => none

/-- Whether an item calls a function. -/
def Item.calls : Item → Bool
  | .code instruction => instruction.opcode = .call
  | _ => false

/-- The bytes of an argument's slot. -/
def Width.slotBytes (width : Width) : Nat := if width = .double then 8 else 4

/-- The slots of arguments of the widths, side by side from the offset on. -/
def slots : (offset : Nat) → List Width → List (Nat × Nat)
  | _, [] => []
  | offset, width :: rest => (offset, width.slotBytes) :: slots (offset + width.slotBytes) rest

namespace Expression

end Expression

end SmallC
