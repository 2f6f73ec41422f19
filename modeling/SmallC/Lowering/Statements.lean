import SmallC.Lowering.Expressions

/-! Statements become instructions, labels and jumps. -/

namespace SmallC

/-- Where control goes when a statement leaves what encloses it. -/
structure Exits where
  /-- The end of the innermost loop, when there is one. -/
  loop? : Option Label := none
  /-- The end of the function. -/
  function : Label

/-- Go to the label when the value of the test is zero. -/
def branchIfZero (test : Expression) (target : Label) : Lowering Code := do
  let value ← lower test
  return value.code ++ compareZero value.value test.type ++ [operate .je [.target target]]

/-- Store a computed value in a computed place. -/
def storeValue (leftType rightType : Ty) (place : Place) (value : Operand) : Code :=
  -- The value is in hand before the address of the place is loaded.
  let (ready, target) := place.resolve
  match Width.of leftType with
  | .double => operate .fldl [value] :: ready ++ [operate .fstpl [target]]
  | .byte => operate .movb [value, Register.al] :: ready ++ [operate .movb [Register.al, target]]
  | .long => load value (.of rightType) .eax :: ready ++ [operate .movl [Register.eax, target]]

/-- Bring a value to where the caller finds it. -/
def loadReturned (type : Ty) (value : Operand) : Item :=
  match Width.of type with
  | .double => operate .fldl [value]
  | width => load value width .eax

mutual

/-- The code of a statement. -/
def lowerStatement (exits : Exits) : Statement → Lowering Code
  | .evaluate value => Lowered.code <$> lower value
  | .assign left right => do
    let value ← lower right
    let place ← lowerPlace left
    return value.code ++ place.code ++ storeValue left.type right.type place.place value.value
  | .breakLoop =>
    -- Outside a loop there is nowhere to go, which has been reported.
    return (exits.loop?.map fun exit => operate .jmp [.target exit]).toList
  | .returnValue value => do
    let result ← lower value
    return result.code ++ [loadReturned value.type result.value,
      operate .jmp [.target exits.function]]
  | .block scope body => do
    Lowering.bindLocals scope
    lowerStatements exits body
  | .whileLoop test body => do
    let top ← Lowering.freshLabel
    let exit ← Lowering.freshLabel
    let tested ← branchIfZero test exit
    let turn ← lowerStatement { exits with loop? := some exit } body
    return .mark top :: tested ++ turn ++ [operate .jmp [.target top], .mark exit]
  | .forLoop init test increment body => do
    let top ← Lowering.freshLabel
    let exit ← Lowering.freshLabel
    let started ← lowerStatement exits init
    let tested ← branchIfZero test exit
    let turn ← lowerStatement { exits with loop? := some exit } body
    let stepped ← lowerStatement exits increment
    return started ++ .mark top :: tested ++ turn ++ stepped
      ++ [operate .jmp [.target top], .mark exit]
  | .ifThen test body => do
    let skip ← Lowering.freshLabel
    let tested ← branchIfZero test skip
    let taken ← lowerStatement exits body
    return tested ++ taken ++ [.mark skip]
  | .ifElse test body otherwise => do
    let skip ← Lowering.freshLabel
    let tested ← branchIfZero test skip
    let taken ← lowerStatement exits body
    let done ← Lowering.freshLabel
    let other ← lowerStatement exits otherwise
    return tested ++ taken ++ [operate .jmp [.target done], .mark skip] ++ other ++ [.mark done]

/-- The code of statements in order. -/
def lowerStatements (exits : Exits) : List Statement → Lowering Code
  | [] => return []
  | first :: rest => do
    let code ← lowerStatement exits first
    let others ← lowerStatements exits rest
    return code ++ others

end

end SmallC
