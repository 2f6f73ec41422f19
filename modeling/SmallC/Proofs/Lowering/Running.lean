import SmallC.Lowering.Statements

/-! Lowering step by step: what each kind of node becomes, and what has been handed out by then. -/

namespace SmallC

attribute [local simp] lower lowerAll lowerStatement lowerStatements

namespace Progress

/-- Where the next value of the type is left. -/
def slot (progress : Progress) (type : Ty) : Operand :=
  .frame (progress.frame.offset - (Width.of type).size)

/-- What has been handed out after a place for a value of the type. -/
def take (progress : Progress) (type : Ty) : Progress :=
  { progress with frame := (progress.frame.allocate (Width.of type).size).2 }

/-- The next label. -/
def label (progress : Progress) : Label := ⟨progress.nextLabel⟩

/-- What has been handed out after a label. -/
def skip (progress : Progress) : Progress := { progress with nextLabel := progress.nextLabel + 1 }

/-- What has been handed out after the label of a constant. -/
def keep (progress : Progress) (value : Literal) : Progress :=
  { progress.skip with literals := progress.literals ++ [(progress.label, value)] }

/-- What has been handed out after room for arguments. -/
def reserve (progress : Progress) (bytes : Nat) : Progress :=
  { progress with frame := progress.frame.reserveArguments bytes }

end Progress

namespace Progress

/-- What has been handed out when the operands of a decision are lowered. -/
def enter (progress : Progress) (type : Ty) : Progress := progress.skip.skip.take type

/-- What has been handed out after the variables of a scope. -/
def bind (progress : Progress) (scope : ScopeId) : Progress :=
  let bound := progress.frame.bindLocals scope 0 progress.symbols
  { progress with frame := bound.1, symbols := bound.2 }

end Progress

namespace Lowering

variable {α β : Type} (progress : Progress)

/-- Steps follow each other. -/
theorem bind_eq (action : Lowering α) (next : α → Lowering β) :
    (action >>= next) progress = next (action progress).1 (action progress).2 := rfl

/-- A value is returned as it is. -/
theorem pure_eq (value : α) : (pure value : Lowering α) progress = (value, progress) := rfl

/-- A value is changed and nothing else. -/
theorem map_eq (change : α → β) (action : Lowering α) :
    (change <$> action) progress = (change (action progress).1, (action progress).2) := rfl

/-- The progress can be looked at. -/
theorem get_eq : (get : Lowering Progress) progress = (progress, progress) := rfl

/-- A temporary takes the next place. -/
theorem temporary_eq (type : Ty) :
    temporary type progress = (progress.slot type, progress.take type) := rfl

/-- A label is the next one. -/
theorem freshLabel_eq : freshLabel progress = (progress.label, progress.skip) := rfl

/-- A constant takes the next label. -/
theorem constant_eq (value : Literal) :
    constant value progress = (.label progress.label, progress.keep value) := rfl

/-- Room for arguments changes nothing but the frame. -/
theorem reserve_eq (bytes : Nat) : reserve bytes progress = ((), progress.reserve bytes) := rfl

/-- The variables of a scope get their places. -/
theorem bindLocals_eq (scope : ScopeId) : bindLocals scope progress = ((), progress.bind scope) :=
  rfl

end Lowering

namespace Expression

/-- The code and the value of an expression lowered from the given progress on. -/
def lowered (expression : Expression) (progress : Progress) : Lowered := (lower expression progress).1

/-- What has been handed out after an expression. -/
def after (expression : Expression) (progress : Progress) : Progress := (lower expression progress).2

/-- The codes and the values of expressions lowered in order. -/
def loweredAll (expressions : List Expression) (progress : Progress) : List Lowered :=
  (lowerAll expressions progress).1

/-- What has been handed out after expressions in order. -/
def afterAll (expressions : List Expression) (progress : Progress) : Progress :=
  (lowerAll expressions progress).2

/-- The code and the place of an expression that is stored to. -/
def located (expression : Expression) (progress : Progress) : Located :=
  (lowerPlace expression progress).1

/-- What has been handed out after a place. -/
def locatedAfter (expression : Expression) (progress : Progress) : Progress :=
  (lowerPlace expression progress).2

variable (progress : Progress)

/-- Lowering gives the code with the value and what has been handed out. -/
theorem lower_eq (expression : Expression) :
    lower expression progress = (expression.lowered progress, expression.after progress) := rfl

/-- Lowering a place gives the code with the place and what has been handed out. -/
theorem lowerPlace_eq (expression : Expression) : lowerPlace expression progress =
    (expression.located progress, expression.locatedAfter progress) := rfl

/-- Lowering in order gives the codes and what has been handed out. -/
theorem lowerAll_eq (expressions : List Expression) : lowerAll expressions progress =
    (loweredAll expressions progress, afterAll expressions progress) := rfl

/-- Nothing is lowered for no expression. -/
theorem lowerAll_nil : lowerAll [] progress = ([], progress) := rfl

/-- Expressions are lowered one after the other. -/
theorem lowerAll_cons (first : Expression) (rest : List Expression) :
    lowerAll (first :: rest) progress =
      (first.lowered progress :: loweredAll rest (first.after progress),
        afterAll rest (first.after progress)) := by
  simp only [lowerAll, Lowering.bind_eq, Lowering.pure_eq]
  rfl

@[simp] theorem loweredAll_nil : loweredAll [] progress = [] := rfl

@[simp] theorem afterAll_nil : afterAll [] progress = progress := rfl

theorem loweredAll_cons (first : Expression) (rest : List Expression) :
    loweredAll (first :: rest) progress =
      first.lowered progress :: loweredAll rest (first.after progress) := by
  unfold loweredAll
  rw [lowerAll_cons]
  rfl

theorem afterAll_cons (first : Expression) (rest : List Expression) :
    afterAll (first :: rest) progress = afterAll rest (first.after progress) := by
  unfold afterAll
  rw [lowerAll_cons]
  rfl

/-- A whole number is an immediate operand. -/
theorem lower_integer (value : UInt32) (type : Ty) :
    lower (.integer value type) progress = (⟨[], immediate value.toNat⟩, progress) := by
  simp only [lower, Lowering.pure_eq]

/-- A floating-point number is a constant. -/
theorem lower_real (spelling : String) :
    lower (.real spelling) progress = (⟨[], .label progress.label⟩, progress.keep (.real spelling)) := by
  simp only [lower, Lowering.bind_eq, Lowering.pure_eq, Lowering.constant_eq]

/-- A text is a constant. -/
theorem lower_string (text : String) :
    lower (.string text) progress = (⟨[], .label progress.label⟩, progress.keep (.string text)) := by
  simp only [lower, Lowering.bind_eq, Lowering.pure_eq, Lowering.constant_eq]

/-- The operand of a symbol: global names have no place in the frame. -/
def operandOf (symbols : SymbolTable) (symbol : SymbolId) : Operand :=
  if symbols.offsetOf symbol = 0 then .global (symbols.nameOf symbol)
  else .frame (symbols.offsetOf symbol)

/-- A name is read where its symbol is. -/
theorem lower_identifier (symbol : SymbolId) (type : Ty) :
    lower (.identifier symbol type) progress =
      (⟨[], operandOf progress.symbols symbol⟩, progress) := by
  simp only [lower, Lowering.bind_eq, Lowering.pure_eq, Lowering.get_eq]
  rfl

/-- The widths in which arguments are passed. -/
def widths (arguments : List Expression) : List Width :=
  arguments.map fun argument => Width.of argument.type

/-- The stores that pass the values of arguments. -/
def passing (arguments : List Expression) : Code :=
  passArguments 0 (((loweredAll arguments progress).map Lowered.value).zip (widths arguments))

/-- A call evaluates its arguments, passes them, calls and keeps what is returned. -/
theorem lower_call (callee : SymbolId) (arguments : List Expression) (type : Ty) :
    lower (.call callee arguments type) progress =
      let reserved := (afterAll arguments progress).reserve (argumentBytes (widths arguments))
      (⟨(loweredAll arguments progress).flatMap Lowered.code ++ (passing progress arguments
        ++ [operate .call [.callee (reserved.symbols.nameOf callee)],
          storeReturned type (reserved.slot type)]), reserved.slot type⟩, reserved.take type) := by
  simp only [lower, Lowering.bind_eq, Lowering.pure_eq, Lowering.get_eq, Lowering.reserve_eq,
    Lowering.temporary_eq, lowerAll_eq, List.append_assoc]
  rfl

/-- A negation compares its operand with zero. -/
theorem lower_not (operand : Expression) (type : Ty) :
    lower (.unary .not operand type) progress =
      let result := (operand.after progress).slot type
      (⟨(operand.lowered progress).code
        ++ (compareZero (operand.lowered progress).value operand.type
          ++ storeCondition .sete result), result⟩, (operand.after progress).take type) := by
  simp only [lower, Lowering.bind_eq, Lowering.pure_eq, Lowering.temporary_eq, lower_eq,
    List.append_assoc]

/-- The code of an opposite after its operand. -/
def negation (type operandType : Ty) (value result : Operand) : Code :=
  if type.isReal then [operate .fldl [value], operate .fchs [], operate .fstpl [result]]
  else [load value (.of operandType) .eax, operate .negl [Register.eax], storeWord result]

/-- An opposite is computed from its operand. -/
theorem lower_negate (operand : Expression) (type : Ty) :
    lower (.unary .negate operand type) progress =
      let result := (operand.after progress).slot type
      (⟨(operand.lowered progress).code
        ++ negation type operand.type (operand.lowered progress).value result, result⟩,
        (operand.after progress).take type) := by
  simp only [lower, Lowering.bind_eq, Lowering.pure_eq, Lowering.temporary_eq, lower_eq]
  rfl

/-- What a pointer points to is copied. -/
theorem lower_dereference (pointer : Expression) (type : Ty) :
    lower (.unary .dereference pointer type) progress =
      let result := (pointer.after progress).slot type
      (⟨(pointer.lowered progress).code
        ++ operate .movl [(pointer.lowered progress).value, Register.eax]
          :: copyPointed type result, result⟩, (pointer.after progress).take type) := by
  simp only [lower, Lowering.bind_eq, Lowering.pure_eq, Lowering.temporary_eq, lower_eq]

/-- A place that is not behind a pointer is where the operand is. -/
theorem lowerPlace_itself {operand : Expression}
    (direct : ∀ pointer type, operand ≠ .unary .dereference pointer type) :
    lowerPlace operand progress = ((operand.lowered progress).itself, operand.after progress) := by
  unfold lowerPlace
  split
  · exact absurd rfl (direct _ _)
  · rfl

/-- An address is that of a place. -/
theorem lower_address (operand : Expression) (type : Ty) :
    lower (.unary .address operand type) progress =
      let result := (operand.locatedAfter progress).slot type
      (⟨(operand.located progress).code
        ++ [loadAddress (operand.located progress).place, storeWord result], result⟩,
        (operand.locatedAfter progress).take type) := by
  unfold located locatedAfter lowerPlace
  split <;> simp only [lower, addressOf, Lowering.bind_eq, Lowering.pure_eq, Lowering.map_eq,
    Lowering.temporary_eq]

/-- A step is one of a place. -/
theorem lower_step (op : StepOp) (scale : Nat) (operand : Expression) (type : Ty) :
    lower (.step op scale operand type) progress =
      let target := (operand.located progress).place.resolve
      let result := (operand.locatedAfter progress).slot type
      (⟨(operand.located progress).code
        ++ (target.1 ++ stepTarget op scale operand.type target.2 result), result⟩,
        (operand.locatedAfter progress).take type) := by
  unfold located locatedAfter lowerPlace
  split <;> simp only [lower, stepOf, Lowering.bind_eq, Lowering.pure_eq, Lowering.map_eq,
    Lowering.temporary_eq, List.append_assoc] <;> rfl

/-- A cast converts its operand, perhaps through a scratch word. -/
theorem lower_cast (operand : Expression) (type : Ty) :
    lower (.unary .cast operand type) progress =
      let result := (operand.after progress).slot type
      let converted := convertValue operand.type type (operand.lowered progress).value result
        ((operand.after progress).take type)
      (⟨(operand.lowered progress).code ++ converted.1, result⟩, converted.2) := by
  simp only [lower, Lowering.bind_eq, Lowering.pure_eq, Lowering.temporary_eq, lower_eq]

/-- An operator that needs both operands evaluates the left one first. -/
theorem lower_binary {op : BinaryOp} (conjunction : op ≠ .logicalAnd)
    (disjunction : op ≠ .logicalOr) (left right : Expression) (type : Ty) :
    lower (.binary op left right type) progress =
      let first := left.lowered progress
      let second := right.lowered (left.after progress)
      let last := right.after (left.after progress)
      (⟨first.code ++ second.code ++ operateOn op type left.type right.type first.value second.value
        (last.slot type), last.slot type⟩, last.take type) := by
  cases op <;> simp_all only [lower, Lowering.bind_eq, Lowering.pure_eq, Lowering.temporary_eq,
    lower_eq, ne_eq, not_true_eq_false]

/-- An operator that may do without its right operand. -/
def decision (either : Bool) : BinaryOp := if either then .logicalOr else .logicalAnd

/-- A decision hands out its labels and its result before its operands are lowered. -/
theorem lower_decision (either : Bool) (left right : Expression) (type : Ty) :
    lower (.binary (decision either) left right type) progress =
      let first := left.lowered (progress.enter type)
      let last := left.after (progress.enter type)
      let result := progress.skip.skip.slot type
      (⟨shortCircuit either first (right.lowered last) left.type right.type progress.label
        progress.skip.label result, result⟩, right.after last) := by
  -- Either operator unfolds to the same steps, and the flag tells which one it is.
  cases either with
  | false =>
    show lower (.binary .logicalAnd left right type) progress = _
    simp only [lower, decisionOf, Lowering.bind_eq, Lowering.pure_eq, Lowering.temporary_eq,
      Lowering.freshLabel_eq, lower_eq, Progress.enter]
  | true =>
    show lower (.binary .logicalOr left right type) progress = _
    simp only [lower, decisionOf, Lowering.bind_eq, Lowering.pure_eq, Lowering.temporary_eq,
      Lowering.freshLabel_eq, lower_eq, Progress.enter]

end Expression

namespace Statement

/-- The code of a statement lowered from the given progress on. -/
def lowered (exits : Exits) (statement : Statement) (progress : Progress) : Code :=
  (lowerStatement exits statement progress).1

/-- What has been handed out after a statement. -/
def after (exits : Exits) (statement : Statement) (progress : Progress) : Progress :=
  (lowerStatement exits statement progress).2

/-- The code of statements lowered in order. -/
def loweredAll (exits : Exits) (statements : List Statement) (progress : Progress) : Code :=
  (lowerStatements exits statements progress).1

/-- What has been handed out after statements in order. -/
def afterAll (exits : Exits) (statements : List Statement) (progress : Progress) : Progress :=
  (lowerStatements exits statements progress).2

end Statement

namespace Expression

/-- The code that computes a condition and compares it with zero. -/
def tested (test : Expression) (progress : Progress) : Code :=
  (test.lowered progress).code ++ compareZero (test.lowered progress).value test.type

end Expression

namespace Exits

/-- Inside a loop that ends at the label. -/
def within (exits : Exits) (exit : Label) : Exits := { exits with loop? := some exit }

end Exits

namespace Statement

variable (exits : Exits) (progress : Progress)

/-- Lowering gives the code and what has been handed out. -/
theorem lower_eq (statement : Statement) : lowerStatement exits statement progress =
    (statement.lowered exits progress, statement.after exits progress) := rfl

/-- Lowering in order gives the code and what has been handed out. -/
theorem lowerAll_eq (statements : List Statement) : lowerStatements exits statements progress =
    (loweredAll exits statements progress, afterAll exits statements progress) := rfl

/-- No code is lowered for no statement. -/
theorem lowerAll_nil : lowerStatements exits [] progress = ([], progress) := rfl

/-- Statements are lowered one after the other. -/
theorem lowerAll_cons (first : Statement) (rest : List Statement) :
    lowerStatements exits (first :: rest) progress =
      (first.lowered exits progress ++ loweredAll exits rest (first.after exits progress),
        afterAll exits rest (first.after exits progress)) := by
  simp only [lowerStatements, Lowering.bind_eq, Lowering.pure_eq]
  rfl

/-- A condition is computed, compared and jumped on. -/
theorem branchIfZero_eq (test : Expression) (target : Label) :
    branchIfZero test target progress =
      (test.tested progress ++ [operate .je [.target target]], test.after progress) := by
  simp only [branchIfZero, Lowering.bind_eq, Lowering.pure_eq, Expression.lower_eq]
  rfl

/-- An expression is evaluated for its effects. -/
theorem lower_evaluate (value : Expression) : lowerStatement exits (.evaluate value) progress =
    ((value.lowered progress).code, value.after progress) := by
  simp only [lowerStatement, Lowering.map_eq, Expression.lower_eq]

/-- An assignment computes the value, then the place, and stores. -/
theorem lower_assign (left right : Expression) : lowerStatement exits (.assign left right) progress =
    let value := right.lowered progress
    let place := left.located (right.after progress)
    (value.code ++ place.code ++ storeValue left.type right.type place.place value.value,
      left.locatedAfter (right.after progress)) := by
  simp only [lowerStatement, Lowering.bind_eq, Lowering.pure_eq, Expression.lower_eq,
    Expression.lowerPlace_eq]

/-- A loop is left by a jump to its end. -/
theorem lower_breakLoop : lowerStatement exits .breakLoop progress =
    ((exits.loop?.map fun exit => operate .jmp [.target exit]).toList, progress) := by
  simp only [lowerStatement, Lowering.pure_eq]

/-- A function is left by a jump to its end, the value being in hand. -/
theorem lower_returnValue (value : Expression) :
    lowerStatement exits (.returnValue value) progress =
      ((value.lowered progress).code ++ [loadReturned value.type (value.lowered progress).value,
        operate .jmp [.target exits.function]], value.after progress) := by
  simp only [lowerStatement, Lowering.bind_eq, Lowering.pure_eq, Expression.lower_eq]

/-- A block binds its variables and runs its statements. -/
theorem lower_block (scope : ScopeId) (body : List Statement) :
    lowerStatement exits (.block scope body) progress =
      (loweredAll exits body (progress.bind scope), afterAll exits body (progress.bind scope)) := by
  simp only [lowerStatement, Lowering.bind_eq, Lowering.bindLocals_eq, lowerAll_eq]

/-- A loop tests before each turn and jumps back after it. -/
theorem lower_whileLoop (test : Expression) (body : Statement) :
    lowerStatement exits (.whileLoop test body) progress =
      let entry := progress.skip.skip
      let inside := exits.within progress.skip.label
      (.mark progress.label :: (test.tested entry ++ [operate .je [.target progress.skip.label]])
        ++ body.lowered inside (test.after entry)
        ++ [operate .jmp [.target progress.label], .mark progress.skip.label],
        body.after inside (test.after entry)) := by
  simp only [lowerStatement, Lowering.bind_eq, Lowering.pure_eq, Lowering.freshLabel_eq,
    branchIfZero_eq, lower_eq, Exits.within]

/-- A loop with a header starts once and steps after each turn. -/
theorem lower_forLoop (init : Statement) (test : Expression) (increment body : Statement) :
    lowerStatement exits (.forLoop init test increment body) progress =
      let entry := progress.skip.skip
      let inside := exits.within progress.skip.label
      let started := init.after exits entry
      let turned := body.after inside (test.after started)
      (init.lowered exits entry ++ .mark progress.label
        :: (test.tested started ++ [operate .je [.target progress.skip.label]])
        ++ body.lowered inside (test.after started) ++ increment.lowered exits turned
        ++ [operate .jmp [.target progress.label], .mark progress.skip.label],
        increment.after exits turned) := by
  simp only [lowerStatement, Lowering.bind_eq, Lowering.pure_eq, Lowering.freshLabel_eq,
    branchIfZero_eq, lower_eq, Exits.within]

/-- A conditional skips its statement when the test fails. -/
theorem lower_ifThen (test : Expression) (body : Statement) :
    lowerStatement exits (.ifThen test body) progress =
      let entry := progress.skip
      (test.tested entry ++ [operate .je [.target progress.label]]
        ++ body.lowered exits (test.after entry) ++ [.mark progress.label],
        body.after exits (test.after entry)) := by
  simp only [lowerStatement, Lowering.bind_eq, Lowering.pure_eq, Lowering.freshLabel_eq,
    branchIfZero_eq, lower_eq]

/-- A conditional with two branches runs one of them. -/
theorem lower_ifElse (test : Expression) (body otherwise : Statement) :
    lowerStatement exits (.ifElse test body otherwise) progress =
      let entry := progress.skip
      let taken := body.after exits (test.after entry)
      (test.tested entry ++ [operate .je [.target progress.label]]
        ++ body.lowered exits (test.after entry)
        ++ [operate .jmp [.target taken.label], .mark progress.label]
        ++ otherwise.lowered exits taken.skip ++ [.mark taken.label],
        otherwise.after exits taken.skip) := by
  simp only [lowerStatement, Lowering.bind_eq, Lowering.pure_eq, Lowering.freshLabel_eq,
    branchIfZero_eq, lower_eq]

end Statement

end SmallC
