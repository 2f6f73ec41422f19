import SmallC.Check.Operators
import SmallC.Proofs.Program.Declarations

/-! The typing rules that code generation relies on: one for each form of checked tree. -/

namespace SmallC

/-- The numbers that arithmetic works on; characters are widened first. -/
inductive Ty.Arithmetic : Ty → Prop where
  /-- Words. -/
  | int : Arithmetic .int
  /-- Floating-point numbers. -/
  | double : Arithmetic .double

/-- The values that can be tested for zero; arrays have decayed and characters are widened. -/
inductive Ty.Testable : Ty → Prop where
  /-- A word. -/
  | int : Testable .int
  /-- A floating-point number. -/
  | double : Testable .double
  /-- The address of a scalar. -/
  | pointer (specifier : Specifier) (indirection : Nat) :
    Testable (.scalar specifier (indirection + 1))

/-- The conversions that a cast node stands for. -/
inductive Ty.Converts : (source target : Ty) → Prop where
  /-- Between two kinds of number. -/
  | numbers {source target : Specifier} (differ : source ≠ target) :
    Converts (.scalar source 0) (.scalar target 0)
  /-- Between pointers. -/
  | pointers {source target : Specifier} (depth height : Nat) :
    Converts (.scalar source (depth + 1)) (.scalar target (height + 1))
  /-- From a word to an address. -/
  | toPointer {target : Specifier} (height : Nat) : Converts .int (.scalar target (height + 1))
  /-- From an address to a word. -/
  | fromPointer {source : Specifier} (depth : Nat) : Converts (.scalar source (depth + 1)) .int

/-- The types of the operand and of the result of an operator on a value. -/
inductive UnaryOp.Types : UnaryOp → (operand result : Ty) → Prop where
  /-- Any testable value has a negation, which is a word. -/
  | not {type : Ty} (testable : type.Testable) : Types .not type .int
  /-- The opposite has the type of its operand. -/
  | negate {type : Ty} (arithmetic : type.Arithmetic) : Types .negate type type
  /-- A pointer leads to storage with one star less. -/
  | dereference (specifier : Specifier) (indirection : Nat) :
    Types .dereference (.scalar specifier (indirection + 1)) (.scalar specifier indirection)
  /-- A cast is one of the conversions. -/
  | cast {source target : Ty} (converts : source.Converts target) : Types .cast source target

/-- The types of the operands and of the result of an operator between two values. -/
inductive BinaryOp.Types : BinaryOp → (left right result : Ty) → Prop where
  /-- Products stay in the type of both operands. -/
  | multiply {type : Ty} (arithmetic : type.Arithmetic) : Types .multiply type type type
  /-- Quotients stay in the type of both operands. -/
  | divide {type : Ty} (arithmetic : type.Arithmetic) : Types .divide type type type
  /-- Remainders are of words. -/
  | remainder : Types .remainder .int .int .int
  /-- Sums of numbers have no scale. -/
  | add {type : Ty} (arithmetic : type.Arithmetic) : Types (.add 0 0) type type type
  /-- A word moves the pointer on its left by elements. -/
  | addRight (specifier : Specifier) (indirection : Nat) :
    Types (.add 0 (Ty.scalar specifier indirection).size) (.scalar specifier (indirection + 1)) .int
      (.scalar specifier (indirection + 1))
  /-- A word moves the pointer on its right by elements. -/
  | addLeft (specifier : Specifier) (indirection : Nat) :
    Types (.add (Ty.scalar specifier indirection).size 0) .int (.scalar specifier (indirection + 1))
      (.scalar specifier (indirection + 1))
  /-- Differences of numbers have no scale. -/
  | subtract {type : Ty} (arithmetic : type.Arithmetic) : Types (.subtract 0 0) type type type
  /-- A word moves a pointer back by elements. -/
  | subtractRight (specifier : Specifier) (indirection : Nat) :
    Types (.subtract (Ty.scalar specifier indirection).size 0)
      (.scalar specifier (indirection + 1)) .int (.scalar specifier (indirection + 1))
  /-- The difference of equal pointers counts elements. -/
  | difference (specifier : Specifier) (indirection : Nat) :
    Types (.subtract 0 (Ty.scalar specifier indirection).size)
      (.scalar specifier (indirection + 1)) (.scalar specifier (indirection + 1)) .int
  /-- Values of one type compare, unless it is that of characters or of an array. -/
  | compare (relation : Comparison) {type : Ty} (promoted : type.promote = type) :
    Types (.compare relation) type type .int
  /-- Testable values have a conjunction. -/
  | logicalAnd {left right : Ty} (first : left.Testable) (second : right.Testable) :
    Types .logicalAnd left right .int
  /-- Testable values have a disjunction. -/
  | logicalOr {left right : Ty} (first : left.Testable) (second : right.Testable) :
    Types .logicalOr left right .int

/-- What a step moves storage of the type by: one, or the size of an element. -/
def Ty.stride : Ty → Nat
  | .scalar specifier (indirection + 1) => (Ty.scalar specifier indirection).size
  | _ => 1

/-- A checked expression whose nodes all follow the rules, under the given declarations. -/
inductive Expression.Typed (symbols : SymbolTable) : Expression → Prop where
  /-- Whole numbers are words. -/
  | integer (value : UInt32) : Typed symbols (.integer value .int)
  /-- Floating-point numbers stand for themselves. -/
  | real (spelling : String) : Typed symbols (.real spelling)
  /-- Texts are arrays of characters. -/
  | string (text : String) : Typed symbols (.string text)
  /-- A name has the type of its declaration. -/
  | identifier (symbol : SymbolId) {type : Ty} (declared : symbols.typeOf symbol = type)
    (proper : type ≠ .error) : Typed symbols (.identifier symbol type)
  /-- A call passes promoted arguments that fit the parameters of a declared function. -/
  | call (callee : SymbolId) {arguments : List Expression} {specifier : Specifier}
    {indirection : Nat} {parameters : List Ty} {variadic : Bool}
    (declared : symbols.typeOf callee = .function specifier indirection parameters variadic)
    (typed : ∀ argument ∈ arguments, Typed symbols argument)
    (promoted : ∀ argument ∈ arguments, argument.type.promote = argument.type)
    (fit : argumentsFit parameters variadic arguments = true) :
    Typed symbols (.call callee arguments (.scalar specifier indirection))
  /-- An operator on a value of a type it works on. -/
  | unary {op : UnaryOp} {operand : Expression} {type : Ty} (typed : Typed symbols operand)
    (types : op.Types operand.type type) : Typed symbols (.unary op operand type)
  /-- The address of storage. -/
  | address {operand : Expression} {specifier : Specifier} {indirection : Nat}
    (typed : Typed symbols operand) (storage : operand.isLvalue = true)
    (scalar : operand.type = .scalar specifier indirection) :
    Typed symbols (.unary .address operand (.scalar specifier (indirection + 1)))
  /-- The address of the first element of an array. -/
  | decay {operand : Expression} {specifier : Specifier} {indirection length : Nat}
    (typed : Typed symbols operand) (array : operand.type = .array specifier indirection length) :
    Typed symbols (.unary .address operand (.scalar specifier (indirection + 1)))
  /-- A step of storage by its stride. -/
  | step (op : StepOp) {operand : Expression} (typed : Typed symbols operand)
    (storage : operand.isLvalue = true) :
    Typed symbols (.step op operand.type.stride operand operand.type)
  /-- An operator between values of types it works on. -/
  | binary {op : BinaryOp} {left right : Expression} {type : Ty} (first : Typed symbols left)
    (second : Typed symbols right) (types : op.Types left.type right.type type) :
    Typed symbols (.binary op left right type)

/-- A checked statement whose parts all follow the rules, in a function that returns the type. -/
inductive Statement.Typed (symbols : SymbolTable) (returned : Ty) :
    (looping : Bool) → Statement → Prop where
  /-- Any expression may be evaluated. -/
  | evaluate {looping : Bool} {value : Expression} (typed : value.Typed symbols) :
    Typed symbols returned looping (.evaluate value)
  /-- A value is stored in storage of its own type. -/
  | assign {looping : Bool} {left right : Expression} (place : left.Typed symbols)
    (storage : left.isLvalue = true) (value : right.Typed symbols)
    (same : right.type = left.type) : Typed symbols returned looping (.assign left right)
  /-- Only a loop can be left. -/
  | breakLoop : Typed symbols returned true .breakLoop
  /-- A returned value has the promoted type of what the function returns. -/
  | returnValue {looping : Bool} {value : Expression} (typed : value.Typed symbols)
    (same : value.type = returned.promote) :
    Typed symbols returned looping (.returnValue value)
  /-- Every statement of a block follows the rules. -/
  | block {looping : Bool} (scope : ScopeId) {body : List Statement}
    (typed : ∀ statement ∈ body, Typed symbols returned looping statement) :
    Typed symbols returned looping (.block scope body)
  /-- The body of a loop may leave it. -/
  | whileLoop {looping : Bool} {test : Expression} {body : Statement} (tested : test.Typed symbols)
    (testable : test.type.Testable) (turn : Typed symbols returned true body) :
    Typed symbols returned looping (.whileLoop test body)
  /-- The first step and the step after a turn are outside the loop. -/
  | forLoop {looping : Bool} {init increment body : Statement} {test : Expression}
    (start : Typed symbols returned looping init) (tested : test.Typed symbols)
    (testable : test.type.Testable) (next : Typed symbols returned looping increment)
    (turn : Typed symbols returned true body) :
    Typed symbols returned looping (.forLoop init test increment body)
  /-- A condition before a statement. -/
  | ifThen {looping : Bool} {test : Expression} {body : Statement} (tested : test.Typed symbols)
    (testable : test.type.Testable) (taken : Typed symbols returned looping body) :
    Typed symbols returned looping (.ifThen test body)
  /-- A condition before two statements. -/
  | ifElse {looping : Bool} {test : Expression} {body otherwise : Statement}
    (tested : test.Typed symbols) (testable : test.type.Testable)
    (taken : Typed symbols returned looping body)
    (other : Typed symbols returned looping otherwise) :
    Typed symbols returned looping (.ifElse test body otherwise)

/-- A function whose symbol, parameters and body agree with each other. -/
structure Function.Typed (symbols : SymbolTable) (function : Function) (specifier : Specifier)
    (indirection : Nat) (parameters : List Ty) (variadic : Bool) : Prop where
  /-- The symbol is declared with the function's own type. -/
  declared : symbols.typeOf function.symbol = .function specifier indirection parameters variadic
  /-- There are as many parameters as the type lists. -/
  counted : function.parameters = parameters.length
  /-- The scope of the body starts with the parameters in order. -/
  placed : ((symbols.symbolsOf function.scope).take function.parameters).map Symbol.type = parameters
  /-- Parameters are scalars. -/
  scalar : ∀ parameter ∈ parameters, ∃ kind depth, parameter = .scalar kind depth
  /-- Every statement follows the rules under the returned type. -/
  body : ∀ statement ∈ function.body,
    statement.Typed symbols (.scalar specifier indirection) false

/-- Arithmetic is done on scalars. -/
theorem Ty.Arithmetic.scalar {type : Ty} (arithmetic : type.Arithmetic) :
    ∃ specifier indirection, type = .scalar specifier indirection := by
  cases arithmetic <;> exact ⟨_, _, rfl⟩

/-- Every operator on a value results in a scalar. -/
theorem UnaryOp.Types.scalar {op : UnaryOp} {operand result : Ty}
    (types : op.Types operand result) :
    ∃ specifier indirection, result = .scalar specifier indirection := by
  cases types with
  | negate arithmetic => exact arithmetic.scalar
  | cast converts => cases converts <;> exact ⟨_, _, rfl⟩
  | _ => exact ⟨_, _, rfl⟩

/-- Every operator between values results in a scalar. -/
theorem BinaryOp.Types.scalar {op : BinaryOp} {left right result : Ty}
    (types : op.Types left right result) :
    ∃ specifier indirection, result = .scalar specifier indirection := by
  cases types with
  | multiply arithmetic | divide arithmetic | add arithmetic | subtract arithmetic =>
    exact arithmetic.scalar
  | _ => exact ⟨_, _, rfl⟩

namespace Expression

variable {symbols : SymbolTable}

/-- Storage is always scalar. -/
theorem Typed.scalar_of_lvalue {expression : Expression} (typed : expression.Typed symbols)
    (storage : expression.isLvalue = true) :
    ∃ specifier indirection, expression.type = .scalar specifier indirection := by
  -- Only names of scalars and what pointers lead to are storage.
  cases typed with
  | @identifier symbol type =>
    cases type <;> simp [isLvalue, Ty.isScalar] at storage
    exact ⟨_, _, rfl⟩
  | @unary op _ _ _ types =>
    cases op <;> simp [isLvalue] at storage
    exact types.scalar
  | _ => simp [isLvalue] at storage

/-- Only names and texts have other types than scalars. -/
theorem Typed.scalar_or_named {expression : Expression} (typed : expression.Typed symbols) :
    (∃ specifier indirection, expression.type = .scalar specifier indirection) ∨
      (∃ symbol type, expression = .identifier symbol type ∧ type ≠ .error) ∨
        ∃ text, expression = .string text := by
  -- Every rule names the type of its node, and steps take over that of their operand.
  cases typed with
  | identifier symbol _ proper => exact .inr (.inl ⟨symbol, _, rfl, proper⟩)
  | string text => exact .inr (.inr ⟨text, rfl⟩)
  | unary _ types => exact .inl types.scalar
  | binary _ _ types => exact .inl types.scalar
  | step _ typed storage => exact .inl (typed.scalar_of_lvalue storage)
  | _ => exact .inl ⟨_, _, rfl⟩

/-- No rule gives a node the error type. -/
theorem Typed.type_ne_error {expression : Expression} (typed : expression.Typed symbols) :
    expression.type ≠ .error := by
  rcases typed.scalar_or_named with ⟨_, _, scalar⟩ | ⟨_, _, rfl, proper⟩ | ⟨_, rfl⟩
  · simp [scalar]
  · exact proper
  · simp [type]

/-- A typed expression has not been reported. -/
theorem Typed.isError {expression : Expression} (typed : expression.Typed symbols) :
    expression.type.isError = false := by
  have proper := typed.type_ne_error
  cases kind : expression.type with
  | error => exact absurd kind proper
  | _ => rfl

/-- Further declarations leave a typed expression typed. -/
theorem Typed.weaken {new : SymbolTable} (keeps : symbols.Keeps new) {expression : Expression}
    (typed : expression.Typed symbols) : expression.Typed new := by
  -- Only names and callees look at the table, and what they see is kept.
  induction typed with
  | integer value => exact .integer value
  | real spelling => exact .real spelling
  | string text => exact .string text
  | identifier symbol declared proper =>
    subst declared
    exact .identifier symbol (keeps.typeOf proper) proper
  | call callee declared _ promoted fit ih =>
    have known : symbols.typeOf callee ≠ .error := by rw [declared]; simp
    exact .call callee ((keeps.typeOf known).trans declared) ih promoted fit
  | unary _ types ih => exact .unary ih types
  | address _ storage scalar ih => exact .address ih storage scalar
  | decay _ array ih => exact .decay ih array
  | step op _ storage ih => exact .step op ih storage
  | binary _ _ types first second => exact .binary first second types

end Expression

/-- Further declarations leave a typed statement typed. -/
theorem Statement.Typed.weaken {old new : SymbolTable} (keeps : old.Keeps new) {returned : Ty}
    {looping : Bool} {statement : Statement} (typed : statement.Typed old returned looping) :
    statement.Typed new returned looping := by
  induction typed with
  | evaluate typed => exact .evaluate (typed.weaken keeps)
  | assign place storage value same =>
    exact .assign (place.weaken keeps) storage (value.weaken keeps) same
  | breakLoop => exact .breakLoop
  | returnValue typed same => exact .returnValue (typed.weaken keeps) same
  | block scope _ ih => exact .block scope ih
  | whileLoop tested testable _ ih => exact .whileLoop (tested.weaken keeps) testable ih
  | forLoop _ tested testable _ _ start next turn =>
    exact .forLoop start (tested.weaken keeps) testable next turn
  | ifThen tested testable _ ih => exact .ifThen (tested.weaken keeps) testable ih
  | ifElse tested testable _ _ taken other =>
    exact .ifElse (tested.weaken keeps) testable taken other

end SmallC
