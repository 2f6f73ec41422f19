/-! Problems of meaning: what the checks may report, without stopping, and in which words. -/

namespace SmallC

/-- Something a check found wrong. -/
inductive Problem where
  /-- A function has two bodies. -/
  | redefinition (name : String)
  /-- A local name is declared twice in its scope. -/
  | redeclaration (name : String)
  /-- A name of the unit is declared with two types. -/
  | conflictingTypes (name : String)
  /-- A name has no declaration in force. -/
  | undeclared (name : String)
  /-- A loop is left where there is none. -/
  | breakOutsideLoop
  /-- A condition cannot be tested for zero. -/
  | invalidTest
  /-- A function returns a value of another type. -/
  | invalidReturn
  /-- Storage is needed where there is only a value. -/
  | lvalueRequired
  /-- A binary operator does not apply to its operands. -/
  | invalidOperands (sign : String)
  /-- A unary operator does not apply to its operand. -/
  | invalidOperand (sign : String)
  /-- The size of a function is asked for. -/
  | invalidSizeof
  /-- A value cannot be converted to the type. -/
  | invalidCast
  /-- The callee is not a function. -/
  | notAFunction
  /-- The arguments of a call do not fit its function. -/
  | invalidArguments
  deriving DecidableEq, Repr

namespace Problem

/-- The message of a problem. -/
def message : Problem → String
  | .redefinition name => "redefinition of '" ++ name ++ "'"
  | .redeclaration name => "redeclaration of '" ++ name ++ "'"
  | .conflictingTypes name => "conflicting types for '" ++ name ++ "'"
  | .undeclared name => "'" ++ name ++ "' undeclared"
  | .breakOutsideLoop => "break statement not within loop"
  | .invalidTest => "invalid type for test expression"
  | .invalidReturn => "invalid return type"
  | .lvalueRequired => "lvalue required in expression"
  | .invalidOperands sign => "invalid operands to binary " ++ sign
  | .invalidOperand sign => "invalid operand to unary " ++ sign
  | .invalidSizeof => "invalid operand in sizeof expression"
  | .invalidCast => "invalid operand in cast expression"
  | .notAFunction => "called object is not a function"
  | .invalidArguments => "invalid arguments to called function"

/-- What helps with a problem. -/
def hints : Problem → List String
  | .undeclared _ => ["each undeclared identifier is reported only once per scope"]
  | .breakOutsideLoop => ["break may only appear inside a while or for body"]
  | _ => []

end Problem

/-- What a check builds, and the one problem it may have found. -/
structure Verdict (α : Type) where
  /-- The node, of error type when the check failed. -/
  node : α
  /-- What is wrong, if it has not been reported inside an operand. -/
  problem? : Option Problem := none

end SmallC
