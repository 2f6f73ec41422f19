import SmallC.Check.Operators
import SmallC.Source.Token

/-! The checker: the declarations in force, the place in hand and the problems reported so far. -/

namespace SmallC

/-- A problem and the place in hand when it was found. -/
structure Report where
  /-- What is wrong. -/
  problem : Problem
  /-- The token in hand, which may follow the construct at fault. -/
  position : Position
  deriving DecidableEq, Repr

/-- The scope that holds the names of the unit. -/
def unitScope : ScopeId := 0

/-- What the checks of one unit depend on and leave behind. -/
structure Checker where
  /-- Every scope, the first one being that of the unit. -/
  symbols : SymbolTable := (SymbolTable.openScope {}).2
  /-- Names of functions that already have a body. -/
  defined : List String := []
  /-- Problems in the order in which they were found. -/
  reports : List Report := []
  /-- The place that the next report names. -/
  position : Position := .start
  /-- How many loop bodies are open around the place. -/
  loops : Nat := 0
  /-- The type that the function in hand returns. -/
  returned : Ty := .error
  deriving Inhabited

namespace Checker

/-- Report a problem at the place in hand. -/
def report (checker : Checker) (problem : Problem) : Checker :=
  { checker with reports := checker.reports ++ [⟨problem, checker.position⟩] }

/-- Keep the node of a verdict and report its problem. -/
def record {α : Type} (verdict : Verdict α) (checker : Checker) : α × Checker :=
  -- The node is kept either way, so that checking goes on.
  (verdict.node, match verdict.problem? with
    | some problem => checker.report problem
    | none => checker)

/-- Put later reports at another place. -/
def moveTo (checker : Checker) (position : Position) : Checker :=
  { checker with position }

/-- The innermost scope in force, or that of the unit when there is none. -/
def current (checker : Checker) : ScopeId :=
  checker.symbols.current?.getD unitScope

/-- Open a scope inside the current one. -/
def openScope (checker : Checker) : ScopeId × Checker :=
  let opened := checker.symbols.openScope
  (opened.1, { checker with symbols := opened.2 })

/-- Close the current scope. -/
def closeScope (checker : Checker) : ScopeId × Checker :=
  let closed := checker.symbols.closeScope
  (closed.1.getD unitScope, { checker with symbols := closed.2 })

/-- Close the scope of parameters that no body follows, and drop its symbols. -/
def closeParameters (checker : Checker) : Checker :=
  -- The signature is in the type; the scope of the unit is never emptied.
  let closed := checker.closeScope
  if closed.1 = unitScope then closed.2
  else { closed.2 with symbols := closed.2.symbols.discard closed.1 }

/-- Enter a function that returns the given type. -/
def beginFunction (checker : Checker) (returned : Ty) : Checker :=
  { checker with returned, loops := 0 }

/-- Enter the body of a loop. -/
def enterLoop (checker : Checker) : Checker :=
  { checker with loops := checker.loops + 1 }

/-- Leave the body of a loop. -/
def leaveLoop (checker : Checker) : Checker :=
  -- Leaving more loops than were entered leaves none.
  { checker with loops := checker.loops - 1 }

/-- Enter a new symbol into a scope. -/
def enter (checker : Checker) (scope : ScopeId) (name : String) (type : Ty) :
    SymbolId × Checker :=
  let entered := checker.symbols.insert scope { name, type }
  (entered.1, { checker with symbols := entered.2 })

/-- Declare a variable in the current scope, where the first declaration of a name stays. -/
def declareVariable (name : String) (type : Ty) (checker : Checker) : SymbolId × Checker :=
  let scope := checker.current
  match checker.symbols.find? scope name with
  | none => checker.enter scope name type
  | some existing =>
    -- The unit may repeat a declaration, and a local scope may not.
    if scope ≠ unitScope then (existing, checker.report (.redeclaration name))
    else if checker.symbols.typeOf existing ≠ type then
      (existing, checker.report (.conflictingTypes name))
    else (existing, checker)

/-- Declare a function in the unit, where the first declaration of a name stays. -/
def declareFunction (name : String) (type : Ty) (checker : Checker) : SymbolId × Checker :=
  match checker.symbols.find? unitScope name with
  | none => checker.enter unitScope name type
  | some existing =>
    if checker.symbols.typeOf existing ≠ type then
      (existing, checker.report (.conflictingTypes name))
    else (existing, checker)

/-- Note that a function has a body, and declare it. -/
def declareDefined (name : String) (type : Ty) (checker : Checker) : SymbolId × Checker :=
  declareFunction name type { checker with defined := name :: checker.defined }

/-- Declare a function that has a body, which must be its only one. -/
def defineFunction (name : String) (type : Ty) (checker : Checker) : SymbolId × Checker :=
  -- A further body is reported and belongs to the symbol of the first one.
  if checker.defined.contains name then
    let checker := checker.report (.redefinition name)
    match checker.symbols.find? unitScope name with
    | some existing => (existing, checker)
    | none => declareDefined name type checker
  else declareDefined name type checker

/-- The symbol that a name stands for; an undeclared name is entered, so it is reported once. -/
def resolve (name : String) (checker : Checker) : SymbolId × Checker :=
  -- The entry of error type is found by later uses in the same scope and in inner ones.
  match checker.symbols.lookup? name with
  | some found => (found, checker)
  | none =>
    let checker := checker.report (.undeclared name)
    checker.enter checker.current name .error

/-- A symbol as an expression. -/
def identifier (checker : Checker) (symbol : SymbolId) : Expression :=
  .identifier symbol (checker.symbols.typeOf symbol)

/-- The call of a symbol. -/
def call (callee : SymbolId) (arguments : List Expression) (checker : Checker) :
    Expression × Checker :=
  checker.record (checkCall callee (checker.symbols.typeOf callee) arguments)

end Checker

end SmallC
