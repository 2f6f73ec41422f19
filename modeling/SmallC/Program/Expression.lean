import SmallC.Program.Comparison
import SmallC.Program.Symbols

/-! Checked expressions: every node carries its type, and every implicit conversion is a node. -/

namespace SmallC

/-- Operators with one operand. -/
inductive UnaryOp where
  /-- One when the operand is zero, else zero. -/
  | not
  /-- The opposite number. -/
  | negate
  /-- The storage a pointer points to. -/
  | dereference
  /-- The address of storage. -/
  | address
  /-- The operand's value in the node's type. -/
  | cast
  deriving DecidableEq, Repr

/-- Which way a step goes. -/
inductive StepOp where
  /-- One element up. -/
  | increment
  /-- One element down. -/
  | decrement
  deriving DecidableEq, Repr

/-- Operators with two operands; scales are in bytes, and zero when no pointer is involved. -/
inductive BinaryOp where
  /-- The product. -/
  | multiply
  /-- The quotient, toward zero for integers. -/
  | divide
  /-- The remainder of the quotient. -/
  | remainder
  /-- The sum, the integer beside a pointer counting elements of the given size. -/
  | add (scaleLeft scaleRight : Nat)
  /-- The difference, either moving a pointer or counting the elements between two. -/
  | subtract (scaleRight scaleResult : Nat)
  /-- One when the comparison holds, else zero. -/
  | compare (relation : Comparison)
  /-- One when neither operand is zero, the right one being evaluated only if it decides. -/
  | logicalAnd
  /-- One when some operand is not zero, the right one being evaluated only if it decides. -/
  | logicalOr
  deriving DecidableEq, Repr

/-- A checked expression. -/
inductive Expression where
  /-- A whole number. -/
  | integer (value : UInt32) (type : Ty)
  /-- A floating-point number as it is spelled. -/
  | real (spelling : String)
  /-- An array of the text's bytes and a closing zero. -/
  | string (text : String)
  /-- A use of a symbol. -/
  | identifier (symbol : SymbolId) (type : Ty)
  /-- A call of a symbol. -/
  | call (callee : SymbolId) (arguments : List Expression) (type : Ty)
  /-- An operator before its operand, or an implicit conversion. -/
  | unary (op : UnaryOp) (operand : Expression) (type : Ty)
  /-- A step by the scale, whose value is the one before it. -/
  | step (op : StepOp) (scale : Nat) (operand : Expression) (type : Ty)
  /-- An operator between its operands. -/
  | binary (op : BinaryOp) (left right : Expression) (type : Ty)
  deriving Inhabited

namespace Expression

/-- The type of the value. -/
def type : Expression → Ty
  -- Constants of text and of floating point have the type of their content.
  | .real _ => .double
  | .string text => .array .char 0 (text.utf8ByteSize + 1)
  | .integer _ type | .identifier _ type | .call _ _ type | .unary _ _ type | .step _ _ _ type
  | .binary _ _ _ type => type

/-- Whether the expression denotes storage: a scalar name or what a pointer points to. -/
def isLvalue : Expression → Bool
  -- Arrays and functions have names but cannot be stored to.
  | .identifier _ type => type.isScalar
  | .unary .dereference _ _ => true
  | _ => false

/-- A whole number of integer type. -/
def int (value : UInt32) : Expression := .integer value .int

end Expression

end SmallC
