import SmallC.Lowering.Frame
import SmallC.Machine.Assembly
import SmallC.Program.Statement

/-! Expressions become instructions that leave each value in a temporary of its own. -/

namespace SmallC

/-- Items of assembly in the order in which they run. -/
abbrev Code := List Item

/-- What the lowering of a function has handed out so far. -/
structure Progress where
  /-- The symbols, the places of those met so far being set. -/
  symbols : SymbolTable
  /-- The next local label. -/
  nextLabel : Nat
  /-- The frame of the function. -/
  frame : Frame := {}
  /-- The constants of the function in the order of their labels. -/
  literals : List (Label × Literal) := []

/-- A step of lowering. -/
abbrev Lowering := StateM Progress

/-- The code of an expression and where it leaves the value. -/
structure Lowered where
  /-- What computes the value. -/
  code : Code
  /-- Where the value can be read afterwards. -/
  value : Operand

/-- A place that can be stored to. -/
inductive Place where
  /-- The operand itself. -/
  | direct (operand : Operand)
  /-- What the pointer in the operand points to. -/
  | indirect (pointer : Operand)

namespace Lowering

/-- Hand out a label. -/
def freshLabel : Lowering Label :=
  modifyGet fun progress =>
    (⟨progress.nextLabel⟩, { progress with nextLabel := progress.nextLabel + 1 })

/-- Hand out a place in the frame for a value of the type. -/
def temporary (type : Ty) : Lowering Operand :=
  modifyGet fun progress =>
    let allocated := progress.frame.allocate (Width.of type).size
    (.frame allocated.1, { progress with frame := allocated.2 })

/-- Hand out a label for a constant. -/
def constant (value : Literal) : Lowering Operand := do
  let label ← freshLabel
  modify fun progress => { progress with literals := progress.literals ++ [(label, value)] }
  return .label label

/-- Leave room for the arguments of a call. -/
def reserve (bytes : Nat) : Lowering Unit :=
  modify fun progress => { progress with frame := progress.frame.reserveArguments bytes }

/-- Place the symbols of a scope as variables. -/
def bindLocals (scope : ScopeId) : Lowering Unit :=
  modify fun progress =>
    let bound := progress.frame.bindLocals scope 0 progress.symbols
    { progress with frame := bound.1, symbols := bound.2 }

end Lowering

/-- One instruction. -/
def operate (opcode : Opcode) (arguments : List Argument) : Item :=
  .code ⟨opcode, arguments⟩

/-- A constant inside an instruction. -/
def immediate (value : Nat) : Operand := .immediate value

/-- Bring an integer value into a word register, widening a byte that is in memory. -/
def load (value : Operand) (width : Width) (register : Register) : Item :=
  -- A constant is a word already, whatever its type.
  if width = .byte ∧ ¬ value.isImmediate then operate .movsbl [value, register]
  else operate .movl [value, register]

/-- Set the conditions by comparing a value with zero. -/
def compareZero (value : Operand) (type : Ty) : Code :=
  if type.isReal then
    [operate .fldl [value], operate .ftst [], operate .fnstsw [Register.ax],
      operate .fstp [Register.st0], operate .sahf []]
  else [load value (.of type) .eax, operate .cmpl [immediate 0, Register.eax]]

/-- Store a condition as one or zero. -/
def storeCondition (opcode : Opcode) (result : Operand) : Code :=
  [operate opcode [Register.al], operate .movzbl [Register.al, Register.eax],
    operate .movl [Register.eax, result]]

/-- A place with the code that computes it. -/
structure Located where
  /-- What computes the place. -/
  code : Code
  /-- The place itself. -/
  place : Place

/-- The place that a computed pointer points to. -/
def Lowered.pointed (pointer : Lowered) : Located := ⟨pointer.code, .indirect pointer.value⟩

/-- The place where a computed value is. -/
def Lowered.itself (value : Lowered) : Located := ⟨value.code, .direct value.value⟩

/-- The code that readies a place, and the operand that then names it. -/
def Place.resolve : Place → Code × Operand
  -- The address goes to the second register, which nothing else holds at that point.
  | .direct operand => ([], operand)
  | .indirect pointer => ([operate .movl [pointer, Register.ecx]], .indirect .ecx)

/-- The condition that a comparison of operands of the type leaves. -/
def conditionOf (relation : Comparison) (type : Ty) : Opcode :=
  -- Pointers compare as unsigned words, and the floating-point conditions read that way too.
  let unsigned := type.isReal || type.isPointer
  match relation with
  | .less => if unsigned then .setb else .setl
  | .greater => if unsigned then .seta else .setg
  | .lessEqual => if unsigned then .setbe else .setle
  | .greaterEqual => if unsigned then .setae else .setge
  | .equal => .sete
  | .notEqual => .setne

/-- Multiply a register by the size of an element, when that changes it. -/
def scaleBy (scale : Nat) (register : Register) : Code :=
  -- Bytes are counted as they are, and numbers have no scale.
  if 1 < scale then [operate .imull [immediate scale, register]] else []

/-- Divide the first register by the second. -/
def divideWords : Code :=
  [operate .cltd [], operate .idivl [Register.ecx]]

/-- Read both operands into the first two registers, each scaled. -/
def loadBoth (left right : Operand) (leftType rightType : Ty) (scaleLeft scaleRight : Nat) :
    Code :=
  load left (.of leftType) .eax :: (scaleBy scaleLeft .eax ++
    load right (.of rightType) .ecx :: scaleBy scaleRight .ecx)

/-- A floating-point operation on two operands. -/
def realOperation (opcode : Opcode) (left right result : Operand) : Code :=
  [operate .fldl [left], operate opcode [right], operate .fstpl [result]]

/-- Store the first register. -/
def storeWord (result : Operand) : Item :=
  operate .movl [Register.eax, result]

/-- Copy arguments to the end of the frame from the given offset on. -/
def passArguments : (offset : Nat) → List (Operand × Width) → Code
  -- All arguments have been evaluated, so nothing overwrites one that is already in place.
  | _, [] => []
  | offset, (value, width) :: rest =>
    let slot := Operand.outgoing offset
    if width = .double then
      operate .fldl [value] :: operate .fstpl [slot] :: passArguments (offset + 8) rest
    else
      load value width .eax :: operate .movl [Register.eax, slot] :: passArguments (offset + 4) rest

/-- Bytes that arguments of the widths take. -/
def argumentBytes (widths : List Width) : Nat :=
  widths.foldr (fun width bytes => (if width = .double then 8 else 4) + bytes) 0

/-- Keep the value that a called function returned. -/
def storeReturned (type : Ty) (result : Operand) : Item :=
  match Width.of type with
  | .double => operate .fstpl [result]
  | .byte => operate .movb [Register.al, result]
  | .long => operate .movl [Register.eax, result]

/-- Copy what the first register points to. -/
def copyPointed (type : Ty) (result : Operand) : Code :=
  let pointed := Operand.indirect .eax
  match Width.of type with
  | .double => [operate .fldl [pointed], operate .fstpl [result]]
  | .byte => [operate .movb [pointed, Register.cl], operate .movb [Register.cl, result]]
  | .long => [operate .movl [pointed, Register.eax], operate .movl [Register.eax, result]]

/-- Bring the address of a place into the first register. -/
def loadAddress : Place → Item
  -- The pointer itself is the address of what it points to.
  | .indirect pointer => operate .movl [pointer, Register.eax]
  | .direct value =>
    if value.isImmediate then operate .movl [value, Register.eax]
    else operate .leal [value, Register.eax]

/-- Keep the value at a target and step the target. -/
def stepTarget (op : StepOp) (scale : Nat) (type : Ty) (target result : Operand) : Code :=
  -- The value before the step is what the expression denotes.
  let up := op = .increment
  match Width.of type with
  | .double =>
    [operate .fldl [target], operate .fstl [result], operate .fld1 []]
      ++ (if up then [] else [operate .fchs []])
      ++ [operate .faddp [Register.st, Register.st1], operate .fstpl [target]]
  | .byte =>
    [operate .movb [target, Register.al], operate .movb [Register.al, result],
      operate (if up then .addb else .subb) [immediate scale, Register.al],
      operate .movb [Register.al, target]]
  | .long =>
    [operate .movl [target, Register.eax], operate .movl [Register.eax, result],
      operate (if up then .addl else .subl) [immediate scale, Register.eax],
      operate .movl [Register.eax, target]]

/-- Convert a value into a result of another width. -/
def convertValue (source target : Ty) (value result : Operand) : Lowering Code := do
  -- The floating-point stack reads words from memory only, so others go through a scratch word.
  match Width.of source, Width.of target with
  | .double, .double => return [operate .fldl [value], operate .fstpl [result]]
  | .double, .long => return [operate .fldl [value], operate .fisttpl [result]]
  | .double, .byte =>
    let scratch ← Lowering.temporary .int
    return [operate .fldl [value], operate .fisttpl [scratch],
      operate .movl [scratch, Register.eax], operate .movb [Register.al, result]]
  | width, .double =>
    if width = .long ∧ ¬ value.isImmediate then
      return [operate .fildl [value], operate .fstpl [result]]
    let scratch ← Lowering.temporary .int
    return [load value width .eax, storeWord scratch, operate .fildl [scratch],
      operate .fstpl [result]]
  | width, .long => return [load value width .eax, storeWord result]
  | width, .byte => return [load value width .eax, operate .movb [Register.al, result]]

/-- Sums, differences, products and quotients of values that have been computed. -/
def arithmetic (real : Opcode) (words : Code) (type : Ty) (left right result : Operand)
    (leftType rightType : Ty) (scaleLeft scaleRight : Nat) : Code :=
  if type.isReal then realOperation real left right result
  else loadBoth left right leftType rightType scaleLeft scaleRight ++ words ++ [storeWord result]

/-- Divide a difference of pointers by the size of an element, when that changes it. -/
def countElements (scale : Nat) (result : Operand) : Code :=
  if 1 < scale then
    [operate .movl [result, Register.eax], operate .movl [immediate scale, Register.ecx]]
      ++ divideWords ++ [storeWord result]
  else []

/-- Compare two values that have been computed. -/
def compareValues (relation : Comparison) (leftType rightType : Ty) (left right result : Operand) :
    Code :=
  let compared :=
    if leftType.isReal then
      [operate .fldl [left], operate .fcompl [right], operate .fnstsw [Register.ax],
        operate .sahf []]
    else
      [load left (.of leftType) .eax, load right (.of rightType) .ecx,
        operate .cmpl [Register.ecx, Register.eax]]
  compared ++ storeCondition (conditionOf relation leftType) result

/-- Words operated on the first two registers, the first one keeping the result. -/
def onWords (opcode : Opcode) : Code :=
  [operate opcode [Register.ecx, Register.eax]]

/-- The code of a strict binary operator on values that have been computed. -/
def operateOn (op : BinaryOp) (type leftType rightType : Ty) (left right result : Operand) :
    Code :=
  match op with
  | .multiply =>
    arithmetic .fmull (onWords .imull) type left right result leftType rightType 0 0
  | .divide => arithmetic .fdivl divideWords type left right result leftType rightType 0 0
  | .add scaleLeft scaleRight =>
    arithmetic .faddl (onWords .addl) type left right result leftType rightType scaleLeft scaleRight
  | .subtract scaleRight scaleResult =>
    arithmetic .fsubl (onWords .subl) type left right result leftType rightType 0 scaleRight
      ++ countElements scaleResult result
  | .remainder =>
    loadBoth left right leftType rightType 0 0 ++ divideWords
      ++ [operate .movl [Register.edx, result]]
  | .compare relation => compareValues relation leftType rightType left right result
  | .logicalAnd | .logicalOr => []

/-- The code of an operator that evaluates its right operand only if it decides. -/
def shortCircuit (either : Bool) (left right : Lowered) (leftType rightType : Ty)
    (decided done : Label) (result : Operand) : Code :=
  -- Both operands jump to the same label when they decide.
  let jump := operate (if either then .jne else .je) [.target decided]
  left.code ++ compareZero left.value leftType ++ [jump]
    ++ right.code ++ compareZero right.value rightType ++ [jump]
    ++ [operate .movl [immediate (if either then 0 else 1), result],
      operate .jmp [.target done], .mark decided,
      operate .movl [immediate (if either then 1 else 0), result], .mark done]

/-- The address of a located place, as a value. -/
def addressOf (locate : Lowering Located) (type : Ty) : Lowering Lowered := do
  let target ← locate
  let result ← Lowering.temporary type
  return ⟨target.code ++ [loadAddress target.place, storeWord result], result⟩

/-- A step of a located place of the stepped type. -/
def stepOf (op : StepOp) (scale : Nat) (locate : Lowering Located) (stepped type : Ty) :
    Lowering Lowered := do
  let target ← locate
  let result ← Lowering.temporary type
  let (ready, named) := target.place.resolve
  return ⟨target.code ++ ready ++ stepTarget op scale stepped named result, result⟩

/-- A conjunction or a disjunction of two operands. -/
def decisionOf (either : Bool) (left right : Lowering Lowered) (leftType rightType type : Ty) :
    Lowering Lowered := do
  let decided ← Lowering.freshLabel
  let done ← Lowering.freshLabel
  let result ← Lowering.temporary type
  let first ← left
  let second ← right
  return ⟨shortCircuit either first second leftType rightType decided done result, result⟩

mutual

/-- The code of an expression. -/
def lower : Expression → Lowering Lowered
  | .integer value _ => return ⟨[], immediate value.toNat⟩
  | .real spelling => return ⟨[], ← Lowering.constant (.real spelling)⟩
  | .string text => return ⟨[], ← Lowering.constant (.string text)⟩
  | .identifier symbol _ => do
    let symbols := (← get).symbols
    let offset := symbols.offsetOf symbol
    return ⟨[], if offset = 0 then .global (symbols.nameOf symbol) else .frame offset⟩
  | .call callee arguments type => do
    let values ← lowerAll arguments
    let widths := arguments.map fun argument => Width.of argument.type
    Lowering.reserve (argumentBytes widths)
    let result ← Lowering.temporary type
    -- Every value stays in its own place until all of them are known.
    let passed := passArguments 0 ((values.map Lowered.value).zip widths)
    let name := (← get).symbols.nameOf callee
    return ⟨values.flatMap Lowered.code ++ passed
      ++ [operate .call [.callee name], storeReturned type result], result⟩
  | .unary .not operand type => do
    let value ← lower operand
    let result ← Lowering.temporary type
    return ⟨value.code ++ compareZero value.value operand.type ++ storeCondition .sete result,
      result⟩
  | .unary .negate operand type => do
    let value ← lower operand
    let result ← Lowering.temporary type
    let negated :=
      if type.isReal then
        [operate .fldl [value.value], operate .fchs [], operate .fstpl [result]]
      else
        [load value.value (.of operand.type) .eax, operate .negl [Register.eax], storeWord result]
    return ⟨value.code ++ negated, result⟩
  | .unary .dereference pointer type => do
    let address ← lower pointer
    let result ← Lowering.temporary type
    return ⟨address.code ++ operate .movl [address.value, Register.eax]
      :: copyPointed type result, result⟩
  | .unary .address (.unary .dereference pointer _) type =>
    addressOf (Lowered.pointed <$> lower pointer) type
  | .unary .address operand type => addressOf (Lowered.itself <$> lower operand) type
  | .unary .cast operand type => do
    let value ← lower operand
    let result ← Lowering.temporary type
    let converted ← convertValue operand.type type value.value result
    return ⟨value.code ++ converted, result⟩
  | .step op scale (.unary .dereference pointer pointed) type =>
    stepOf op scale (Lowered.pointed <$> lower pointer) pointed type
  | .step op scale operand type =>
    stepOf op scale (Lowered.itself <$> lower operand) operand.type type
  | .binary .logicalAnd left right type =>
    decisionOf false (lower left) (lower right) left.type right.type type
  | .binary .logicalOr left right type =>
    decisionOf true (lower left) (lower right) left.type right.type type
  | .binary op left right type => do
    let first ← lower left
    let second ← lower right
    let result ← Lowering.temporary type
    return ⟨first.code ++ second.code
      ++ operateOn op type left.type right.type first.value second.value result, result⟩

/-- The code of each of several expressions, evaluated in order. -/
def lowerAll : List Expression → Lowering (List Lowered)
  | [] => return []
  | first :: rest => do
    let value ← lower first
    let others ← lowerAll rest
    return value :: others

end

/-- The code of a place that is stored to. -/
def lowerPlace : Expression → Lowering Located
  | .unary .dereference pointer _ => Lowered.pointed <$> lower pointer
  | operand => Lowered.itself <$> lower operand

end SmallC
