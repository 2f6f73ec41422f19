import SmallC.Check.Conversion
import SmallC.Check.Problem
import SmallC.Program.Statement

/-! Typing rules: each turns checked operands into one node and finds at most one problem. -/

namespace SmallC

/-- Judge an operator with one promoted operand by a rule on its type. -/
def checkUnary (op : UnaryOp) (sign : String) (rule : Ty → Option Ty) (operand : Expression) :
    Verdict Expression :=
  -- An operand that has been reported makes the node an error without another report.
  let operand := operand.promote
  if operand.type.isError then ⟨.unary op operand .error, none⟩
  else
    match rule operand.type with
    | some type => ⟨.unary op operand type, none⟩
    | none => ⟨.unary op operand .error, some (.invalidOperand sign)⟩

/-- Any number or pointer can be tested for zero. -/
def checkNot : Expression → Verdict Expression :=
  checkUnary .not "!" fun type => if type.isPredicate then some .int else none

/-- Any number has an opposite. -/
def checkNegate : Expression → Verdict Expression :=
  checkUnary .negate "-" fun type => if type.isNumeric then some type else none

/-- Any pointer can be followed. -/
def checkDereference : Expression → Verdict Expression :=
  checkUnary .dereference "*" fun type => if type.isPointer then some type.pointee else none

/-- What keeps an operand from being storage, silent when it has been reported. -/
def lvalueProblem? (operand : Expression) : Option Problem :=
  if operand.type.isError || operand.isLvalue then none else some .lvalueRequired

/-- Only storage has an address. -/
def checkAddress (operand : Expression) : Verdict Expression :=
  -- Storage of error type has an address of error type.
  let type := if operand.isLvalue then operand.type.addressOf else .error
  ⟨.unary .address operand type, lvalueProblem? operand⟩

/-- Only storage steps, a pointer by the size of what it points to. -/
def checkStep (op : StepOp) (operand : Expression) : Verdict Expression :=
  -- Numbers step by one, and the value of a failed step has no scale.
  let type := operand.type
  let node :=
    if type.isError || !operand.isLvalue then .step op 0 operand .error
    else .step op (if type.isPointer then type.pointee.size else 1) operand type
  ⟨node, lvalueProblem? operand⟩

/-- The size of a type as a constant. -/
def sizeofType (type : Ty) : Expression :=
  .int (UInt32.ofNat type.size)

/-- The size of an operand's type, which a function does not have. -/
def checkSizeof (operand : Expression) : Verdict Expression :=
  ⟨sizeofType operand.type, if operand.type.isFunction then some .invalidSizeof else none⟩

/-- Convert between numbers, between pointers, and between pointers and integers. -/
def checkCast (target : Ty) (operand : Expression) : Verdict Expression :=
  -- The operand is first brought near the target, and a node is added only if a step remains.
  let source := operand.type
  let retyped (operand : Expression) : Verdict Expression :=
    ⟨if operand.type = target then operand else .unary .cast operand target, none⟩
  if source.isError then ⟨operand, none⟩
  else if target.isNumeric && source.isNumeric then retyped (operand.convert target)
  else if target.isPointer && (source.isPointer || source.isInteger) then retyped operand.promote
  else if source.isPointer && target.isInteger then retyped operand.promote
  else ⟨.unary .cast operand .error, some .invalidCast⟩

/-- Judge an operator with two operands, already converted, by a rule on their types. -/
def judge (plain : BinaryOp) (sign : String) (rule : Ty → Ty → Option (BinaryOp × Ty))
    (left right : Expression) : Verdict Expression :=
  -- An operand that has been reported makes the node an error without another report.
  if left.type.isError || right.type.isError then ⟨.binary plain left right .error, none⟩
  else
    match rule left.type right.type with
    | some (op, type) => ⟨.binary op left right type, none⟩
    | none => ⟨.binary plain left right .error, some (.invalidOperands sign)⟩

/-- Judge operands that are first extended toward each other, the left one first. -/
def judgeExtended (plain : BinaryOp) (sign : String) (rule : Ty → Ty → Option (BinaryOp × Ty))
    (left right : Expression) : Verdict Expression :=
  -- The right operand is extended toward what has become of the left one.
  let left := left.extend right.type
  judge plain sign rule left (right.extend left.type)

/-- Judge operands that are first promoted, each for itself. -/
def judgePromoted (plain : BinaryOp) (sign : String) (rule : Ty → Ty → Option (BinaryOp × Ty))
    (left right : Expression) : Verdict Expression :=
  judge plain sign rule left.promote right.promote

/-- Numbers have products. -/
def checkMultiply : Expression → Expression → Verdict Expression :=
  judgeExtended .multiply "*" fun left right =>
    if left.isNumeric && right.isNumeric then some (.multiply, left) else none

/-- Numbers have quotients. -/
def checkDivide : Expression → Expression → Verdict Expression :=
  judgeExtended .divide "/" fun left right =>
    if left.isNumeric && right.isNumeric then some (.divide, left) else none

/-- Integers have remainders. -/
def checkRemainder : Expression → Expression → Verdict Expression :=
  judgePromoted .remainder "%" fun left right =>
    if left.isInteger && right.isInteger then some (.remainder, .int) else none

/-- Numbers add up, and an integer moves a pointer. -/
def checkAdd : Expression → Expression → Verdict Expression :=
  judgeExtended (.add 0 0) "+" fun left right =>
    if left.isNumeric && right.isNumeric then some (.add 0 0, left)
    else if left.isPointer && right.isInteger then some (.add 0 left.pointee.size, left)
    else if left.isInteger && right.isPointer then some (.add right.pointee.size 0, right)
    else none

/-- Numbers subtract, equal pointers count the elements between, and an integer moves a pointer. -/
def checkSubtract : Expression → Expression → Verdict Expression :=
  -- A pointer cannot be taken from an integer.
  judgeExtended (.subtract 0 0) "-" fun left right =>
    if left.isNumeric && right.isNumeric then some (.subtract 0 0, left)
    else if left.isPointer && left = right then some (.subtract 0 left.pointee.size, .int)
    else if left.isPointer && right.isInteger then some (.subtract left.pointee.size 0, left)
    else none

/-- Compatible operands compare. -/
def checkCompare (relation : Comparison) : Expression → Expression → Verdict Expression :=
  judgeExtended (.compare relation) relation.text fun left right =>
    if left.compatible right then some (.compare relation, .int) else none

/-- Operands that can be tested for zero have a conjunction. -/
def checkAnd : Expression → Expression → Verdict Expression :=
  judgePromoted .logicalAnd "&&" fun left right =>
    if left.isPredicate && right.isPredicate then some (.logicalAnd, .int) else none

/-- Operands that can be tested for zero have a disjunction. -/
def checkOr : Expression → Expression → Verdict Expression :=
  judgePromoted .logicalOr "||" fun left right =>
    if left.isPredicate && right.isPredicate then some (.logicalOr, .int) else none

/-- A subscript follows the pointer moved by the index. -/
def checkSubscript (left right : Expression) : Verdict Expression :=
  -- The index counts elements, and the pointer stands on the left only.
  let left := left.promote
  let right := right.promote
  let failed := Expression.unary .dereference left .error
  if left.type.isError || right.type.isError then ⟨failed, none⟩
  else if left.type.isPointer && right.type.isInteger then
    let element := left.type.pointee
    let moved := Expression.binary (.add 0 element.size) left right left.type
    ⟨.unary .dereference moved element, none⟩
  else ⟨failed, some (.invalidOperands "[]")⟩

/-- Whether the arguments fit the parameters, extra ones only where the list is open. -/
def argumentsFit (parameters : List Ty) (variadic : Bool) (arguments : List Expression) : Bool :=
  let counted :=
    if variadic then decide (parameters.length ≤ arguments.length)
    else parameters.length == arguments.length
  counted && (parameters.zip arguments).all fun pair => pair.1.compatible pair.2.type

/-- A call of a function with fitting arguments, all promoted, has its returned type. -/
def checkCall (callee : SymbolId) (type : Ty) (arguments : List Expression) :
    Verdict Expression :=
  -- A callee or an argument that has been reported keeps the call silent.
  let arguments := arguments.map Expression.promote
  match type with
  | .error => ⟨.call callee arguments .error, none⟩
  | .function specifier indirection parameters variadic =>
    if arguments.any (·.type.isError) then ⟨.call callee arguments .error, none⟩
    else if argumentsFit parameters variadic arguments then
      ⟨.call callee arguments (.scalar specifier indirection), none⟩
    else ⟨.call callee arguments .error, some .invalidArguments⟩
  | _ => ⟨.call callee arguments .error, some .notAFunction⟩

/-- A condition can be tested for zero. -/
def checkTest (operand : Expression) : Verdict Expression :=
  let operand := operand.promote
  ⟨operand,
    if operand.type.isError || operand.type.isPredicate then none else some .invalidTest⟩

/-- A value is stored in storage of a compatible type. -/
def checkAssign (left right : Expression) : Verdict Statement :=
  -- The value is converted even when the place turns out to be none.
  let right := right.convert left.type
  ⟨.assign left right,
    if left.type.isError || right.type.isError then none
    else if !left.isLvalue then some .lvalueRequired
    else if left.type.compatible right.type then none
    else some (.invalidOperands "=")⟩

/-- A returned value is compatible with the type of its function. -/
def checkReturn (returned : Ty) (operand : Expression) : Verdict Statement :=
  let operand := operand.promote
  ⟨.returnValue operand,
    if operand.type.isError || operand.type.compatible returned then none
    else some .invalidReturn⟩

/-- A loop can be left only inside one. -/
def checkBreak (loops : Nat) : Verdict Statement :=
  ⟨.breakLoop, if loops = 0 then some .breakOutsideLoop else none⟩

end SmallC
