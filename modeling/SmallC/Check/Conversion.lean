import SmallC.Program.Expression

/-! Implicit conversions: each puts an explicit node around an operand that needs one. -/

namespace SmallC

namespace Expression

/-- Let an array become the address of its first element and a character an integer. -/
def promote (operand : Expression) : Expression :=
  -- Operands that are already words or larger numbers stay as they are.
  if operand.type.isArray then .unary .address operand operand.type.promote
  else if operand.type = .char then .unary .cast operand .int
  else operand

/-- The floating-point form of an integer or character operand. -/
def widen : Expression → Expression
  -- A literal is respelled, and anything else is converted when it is evaluated.
  | .integer value _ => .real (toString value.toNat)
  | operand => .unary .cast operand .double

/-- Go to floating point when the other operand is there, else promote. -/
def extend (operand : Expression) (other : Ty) : Expression :=
  -- Only the other operand's own type counts, so a pointer to numbers changes nothing.
  if (operand.type = .char ∨ operand.type = .int) ∧ other = .double then operand.widen
  else operand.promote

/-- Whether storing a value of the source type in the target type truncates it. -/
def narrows (source target : Ty) : Bool :=
  (source = .int && target = .char) || (source = .double && (target = .int || target = .char))

/-- Go to the target type as storing does. -/
def convert (operand : Expression) (target : Ty) : Expression :=
  -- An operand of the target type is left alone, even where promotion would change it.
  if narrows operand.type target then .unary .cast operand target
  else if operand.type = target then operand
  else operand.extend target

end Expression

end SmallC
