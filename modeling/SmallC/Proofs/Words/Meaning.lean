import SmallC.Proofs.Lowering.Statements
import SmallC.Proofs.Words.Processor

/-! What expressions on words, characters and pointers mean, and when they mean something. -/

namespace SmallC

/-- One for what holds, else zero. -/
def truth (holds : Bool) : BitVec 32 := if holds then 1 else 0

/-- Whether a comparison holds between words. -/
def Comparison.holds (relation : Comparison) (unsigned : Bool) (left right : BitVec 32) : Bool :=
  match relation with
  | .less => if unsigned then left.ult right else left.slt right
  | .greater => if unsigned then right.ult left else right.slt left
  | .lessEqual => if unsigned then left.ule right else left.sle right
  | .greaterEqual => if unsigned then right.ule left else right.sle left
  | .equal => left == right
  | .notEqual => left != right

/-- A number of elements as bytes; without a scale it is a number. -/
def scaled (value : BitVec 32) (scale : Nat) : BitVec 32 :=
  if scale = 0 then value else value * BitVec.ofNat 32 scale

/-- A number of bytes as elements; without a scale it is a number. -/
def counted (bytes : BitVec 32) (scale : Nat) : BitVec 32 :=
  if scale = 0 then bytes else bytes.sdiv (BitVec.ofNat 32 scale)

namespace BinaryOp

/-- The result of an operator on words of the type; words wrap and pointers are unsigned. -/
def result (op : BinaryOp) (type : Ty) (left right : BitVec 32) : BitVec 32 :=
  match op with
  | .multiply => left * right
  | .divide => left.sdiv right
  | .remainder => left.srem right
  | .add scaleLeft scaleRight => scaled left scaleLeft + scaled right scaleRight
  | .subtract scaleRight scaleResult => counted (left - scaled right scaleRight) scaleResult
  | .compare relation => truth (relation.holds type.isPointer left right)
  | .logicalAnd => truth (left != 0 && right != 0)
  | .logicalOr => truth (left != 0 || right != 0)

/-- Whether there is a result: quotients need a divisor and must not overflow. -/
def Defined (op : BinaryOp) (left right : BitVec 32) : Prop :=
  match op with
  | .divide | .remainder => right ≠ 0 ∧ ¬ (left = BitVec.intMin 32 ∧ right = -1)
  | _ => True

instance (op : BinaryOp) (left right : BitVec 32) : Decidable (op.Defined left right) :=
  match op with
  | .divide | .remainder =>
    inferInstanceAs (Decidable (right ≠ 0 ∧ ¬ (left = BitVec.intMin 32 ∧ right = -1)))
  | .multiply | .add .. | .subtract .. | .compare _ | .logicalAnd | .logicalOr =>
    inferInstanceAs (Decidable True)

end BinaryOp

/-- The address of an operand in a frame with the given base. -/
def Layout.place (layout : Layout) (base : BitVec 32) : Operand → BitVec 32
  | .frame offset => base + BitVec.ofInt 32 offset
  | .global name => layout.globals name
  | .label label => layout.constants label
  | .immediate _ | .indirect _ | .outgoing _ => 0

namespace Expression

/-- Whether the expression is about words, characters and pointers only, and neither calls nor
steps; arrays occur where their address is taken, which the flag tells. -/
def isPlain (taken : Bool) : Expression → Bool
  | .integer .. => true
  | .real _ | .call .. | .step .. => false
  | .string _ => taken
  | .identifier _ type => (type.isScalar || (taken && type.isArray)) && !type.isReal
  | .unary .address operand type => operand.isPlain true && !type.isReal
  | .unary _ operand type => operand.isPlain false && !type.isReal
  | .binary _ left right type => left.isPlain false && right.isPlain false && !type.isReal

variable (layout : Layout) (base : BitVec 32) (memory : Memory)

/-- The value of an expression; a text is the address of the constant kept for it. -/
def value : Expression → Progress → BitVec 32
  | .integer number _, _ => number.toBitVec
  | .identifier symbol type, progress =>
    memory.read (layout.place base (operandOf progress.symbols symbol)) (Width.of type)
  -- The address of what is behind a pointer is the pointer.
  | .unary .address (.unary .dereference pointer _) _, progress => value pointer progress
  | .unary .address (.identifier symbol _) _, progress =>
    layout.place base (operandOf progress.symbols symbol)
  | .unary .address (.string _) _, progress => layout.place base (.label progress.label)
  | .unary .dereference pointer type, progress =>
    memory.read (value pointer progress) (Width.of type)
  | .unary .not operand _, progress => truth (value operand progress == 0)
  | .unary .negate operand _, progress => - value operand progress
  | .unary .cast operand type, progress => (Width.of type).trim (value operand progress)
  | .binary .logicalAnd left right type, progress =>
    let entry := progress.enter type
    BinaryOp.logicalAnd.result left.type (value left entry) (value right (left.after entry))
  | .binary .logicalOr left right type, progress =>
    let entry := progress.enter type
    BinaryOp.logicalOr.result left.type (value left entry) (value right (left.after entry))
  | .binary op left right _, progress =>
    op.result left.type (value left progress) (value right (left.after progress))
  | _, _ => 0

/-- Whether everything evaluated has a value, no byte that is read being between the bounds. -/
def Defined (low high : Int) : Expression → Progress → Prop
  | .identifier symbol type, progress =>
    Clear base low high (layout.place base (operandOf progress.symbols symbol)) (Width.of type)
  | .unary .address (.unary .dereference pointer _) _, progress =>
    Defined low high pointer progress
  | .unary .address _ _, _ => True
  | .unary .dereference pointer type, progress =>
    Defined low high pointer progress ∧
      Clear base low high (value layout base memory pointer progress) (Width.of type)
  | .unary _ operand _, progress => Defined low high operand progress
  -- The right operand is evaluated only if it decides.
  | .binary .logicalAnd left right type, progress =>
    let entry := progress.enter type
    Defined low high left entry ∧
      (value layout base memory left entry ≠ 0 → Defined low high right (left.after entry))
  | .binary .logicalOr left right type, progress =>
    let entry := progress.enter type
    Defined low high left entry ∧
      (value layout base memory left entry = 0 → Defined low high right (left.after entry))
  | .binary op left right _, progress =>
    Defined low high left progress ∧ Defined low high right (left.after progress) ∧
      op.Defined (value layout base memory left progress)
        (value layout base memory right (left.after progress))
  | _, _ => True

attribute [local simp] isPlain value Defined

/-- The value of a decision. -/
theorem value_decision (either : Bool) (left right : Expression) (type : Ty)
    (progress : Progress) :
    (Expression.binary (decision either) left right type).value layout base memory progress =
      (decision either).result left.type (left.value layout base memory (progress.enter type))
        (right.value layout base memory (left.after (progress.enter type))) := by
  cases either <;> simp [decision]

/-- The value of an operator that needs both operands. -/
theorem value_strict {op : BinaryOp} (conjunction : op ≠ .logicalAnd) (disjunction : op ≠ .logicalOr)
    (left right : Expression) (type : Ty) (progress : Progress) :
    (Expression.binary op left right type).value layout base memory progress =
      op.result left.type (left.value layout base memory progress)
        (right.value layout base memory (left.after progress)) := by
  cases op <;> first | contradiction | simp

variable (low high : Int)

/-- A decision needs its right operand if the left one does not decide. -/
theorem defined_decision (either : Bool) (left right : Expression) (type : Ty)
    (progress : Progress) :
    (Expression.binary (decision either) left right type).Defined layout base memory low high
        progress ↔
      left.Defined layout base memory low high (progress.enter type) ∧
        ((left.value layout base memory (progress.enter type) != 0) ≠ either →
          right.Defined layout base memory low high (left.after (progress.enter type))) := by
  cases either <;> simp [decision]

/-- An operator that needs both operands needs a result too. -/
theorem defined_strict {op : BinaryOp} (conjunction : op ≠ .logicalAnd)
    (disjunction : op ≠ .logicalOr) (left right : Expression) (type : Ty) (progress : Progress) :
    (Expression.binary op left right type).Defined layout base memory low high progress ↔
      left.Defined layout base memory low high progress ∧
        right.Defined layout base memory low high (left.after progress) ∧
          op.Defined (left.value layout base memory progress)
            (right.value layout base memory (left.after progress)) := by
  cases op <;> first | contradiction | simp

end Expression

/-- The left operand decides, or else the right one does. -/
theorem BinaryOp.result_decision (either : Bool) (type : Ty) (left right : BitVec 32) :
    (Expression.decision either).result type left right =
      truth (if (left != 0) = either then either else right != 0) := by
  cases either with
  | false =>
    show truth (left != 0 && right != 0) = _
    cases left != 0 <;> rfl
  | true =>
    show truth (left != 0 || right != 0) = _
    cases left != 0 <;> rfl

end SmallC
