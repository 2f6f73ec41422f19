import SmallC.Program.Expression

/-! Checked statements and functions. -/

namespace SmallC

/-- A checked statement. -/
inductive Statement where
  /-- An expression evaluated for its effects. -/
  | evaluate (value : Expression)
  /-- A value stored in a place. -/
  | assign (left right : Expression)
  /-- Leave the innermost loop. -/
  | breakLoop
  /-- Leave the function with a value. -/
  | returnValue (value : Expression)
  /-- Statements with a scope of their own. -/
  | block (scope : ScopeId) (body : List Statement)
  /-- Repeat while the test holds. -/
  | whileLoop (test : Expression) (body : Statement)
  /-- Repeat while the test holds, with a first step and a step after each turn. -/
  | forLoop (init : Statement) (test : Expression) (increment body : Statement)
  /-- Run only if the test holds. -/
  | ifThen (test : Expression) (body : Statement)
  /-- Run one of two statements. -/
  | ifElse (test : Expression) (body otherwise : Statement)
  deriving Inhabited

/-- A function with its body; the scope of the body starts with the parameters. -/
structure Function where
  /-- The symbol the function is called by. -/
  symbol : SymbolId
  /-- How many symbols of the body's scope are parameters. -/
  parameters : Nat
  /-- The scope of the parameters and of the body's own declarations. -/
  scope : ScopeId
  /-- The statements of the body. -/
  body : List Statement
  deriving Inhabited

mutual

/-- The scopes of the blocks inside a statement, in source order. -/
def Statement.scopes : Statement → List ScopeId
  -- Only blocks open scopes; other statements pass on those of their parts.
  | .block scope body => scope :: Statement.scopesOfList body
  | .whileLoop _ body | .ifThen _ body => body.scopes
  | .forLoop init _ increment body => init.scopes ++ (increment.scopes ++ body.scopes)
  | .ifElse _ body otherwise => body.scopes ++ otherwise.scopes
  | .evaluate _ | .assign .. | .breakLoop | .returnValue _ => []

/-- The scopes of the blocks inside a list of statements. -/
def Statement.scopesOfList : List Statement → List ScopeId
  | [] => []
  | statement :: rest => statement.scopes ++ Statement.scopesOfList rest

end

/-- The scopes of a function: that of its body, then those of the blocks inside. -/
def Function.scopes (function : Function) : List ScopeId :=
  function.scope :: Statement.scopesOfList function.body

end SmallC
