import SmallC.Proofs.Typing.Rules

/-! Every node inside a typed expression, statement or function is typed on its own. -/

namespace SmallC

namespace Expression

mutual

/-- The nodes of an expression, each before those below it. -/
def nodes : Expression → List Expression
  | .integer value type => [.integer value type]
  | .real spelling => [.real spelling]
  | .string text => [.string text]
  | .identifier symbol type => [.identifier symbol type]
  | .call callee arguments type => .call callee arguments type :: nodesOfList arguments
  | .unary op operand type => .unary op operand type :: operand.nodes
  | .step op scale operand type => .step op scale operand type :: operand.nodes
  | .binary op left right type => .binary op left right type :: (left.nodes ++ right.nodes)

/-- The nodes of several expressions in order. -/
def nodesOfList : List Expression → List Expression
  | [] => []
  | first :: rest => first.nodes ++ nodesOfList rest

end

theorem mem_nodesOfList {node : Expression} {expressions : List Expression} :
    node ∈ nodesOfList expressions ↔ ∃ expression ∈ expressions, node ∈ expression.nodes := by
  induction expressions with
  | nil => simp [nodesOfList]
  | cons first rest ih => simp [nodesOfList, ih]

variable {symbols : SymbolTable}

/-- The nodes of a typed expression are typed. -/
theorem Typed.nodes {expression : Expression} (typed : expression.Typed symbols) :
    ∀ node ∈ expression.nodes, node.Typed symbols := by
  -- Along the derivation, a node is either at the top or inside an operand.
  induction typed with
  | integer value => simp [Expression.nodes, Typed.integer]
  | real spelling => simp [Expression.nodes, Typed.real]
  | string text => simp [Expression.nodes, Typed.string]
  | identifier symbol declared proper =>
    simpa [Expression.nodes] using Typed.identifier symbol declared proper
  | call callee declared typed promoted fit ih =>
    intro node member
    simp only [Expression.nodes, List.mem_cons, mem_nodesOfList] at member
    rcases member with rfl | ⟨argument, present, below⟩
    · exact .call callee declared typed promoted fit
    · exact ih argument present node below
  | unary typed types ih =>
    intro node member
    rcases List.mem_cons.mp member with rfl | below
    · exact .unary typed types
    · exact ih node below
  | address typed storage scalar ih =>
    intro node member
    rcases List.mem_cons.mp member with rfl | below
    · exact .address typed storage scalar
    · exact ih node below
  | decay typed array ih =>
    intro node member
    rcases List.mem_cons.mp member with rfl | below
    · exact .decay typed array
    · exact ih node below
  | step op typed storage ih =>
    intro node member
    rcases List.mem_cons.mp member with rfl | below
    · exact .step op typed storage
    · exact ih node below
  | binary first second types left right =>
    intro node member
    rcases List.mem_cons.mp member with rfl | below
    · exact .binary first second types
    · rcases List.mem_append.mp below with below | below
      · exact left node below
      · exact right node below

end Expression

namespace Statement

mutual

/-- The expressions directly under a statement and under the statements inside it. -/
def expressions : Statement → List Expression
  | .evaluate value | .returnValue value => [value]
  | .assign left right => [left, right]
  | .breakLoop => []
  | .block _ body => expressionsOfList body
  | .whileLoop test body | .ifThen test body => test :: body.expressions
  | .forLoop init test increment body =>
    init.expressions ++ test :: (increment.expressions ++ body.expressions)
  | .ifElse test body otherwise => test :: (body.expressions ++ otherwise.expressions)

/-- The expressions under several statements in order. -/
def expressionsOfList : List Statement → List Expression
  | [] => []
  | first :: rest => first.expressions ++ expressionsOfList rest

end

theorem mem_expressionsOfList {expression : Expression} {statements : List Statement} :
    expression ∈ expressionsOfList statements ↔
      ∃ statement ∈ statements, expression ∈ statement.expressions := by
  induction statements with
  | nil => simp [expressionsOfList]
  | cons first rest ih => simp [expressionsOfList, ih]

/-- The expressions of a typed statement are typed. -/
theorem Typed.expressions {symbols : SymbolTable} {returned : Ty} {looping : Bool}
    {statement : Statement} (typed : statement.Typed symbols returned looping) :
    ∀ expression ∈ statement.expressions, expression.Typed symbols := by
  -- Along the derivation, an expression is either directly here or in a statement inside.
  induction typed with
  | evaluate typed => simpa [Statement.expressions] using typed
  | assign place storage value same => simp [Statement.expressions, place, value]
  | breakLoop => simp [Statement.expressions]
  | returnValue typed same => simpa [Statement.expressions] using typed
  | block scope typed ih =>
    intro expression member
    simp only [Statement.expressions, mem_expressionsOfList] at member
    obtain ⟨statement, present, below⟩ := member
    exact ih statement present expression below
  | whileLoop tested testable turn ih =>
    intro expression member
    rcases List.mem_cons.mp member with rfl | below
    · exact tested
    · exact ih expression below
  | forLoop start tested testable next turn first second third =>
    intro expression member
    simp only [Statement.expressions, List.mem_append, List.mem_cons] at member
    rcases member with below | rfl | below | below
    · exact first expression below
    · exact tested
    · exact second expression below
    · exact third expression below
  | ifThen tested testable taken ih =>
    intro expression member
    rcases List.mem_cons.mp member with rfl | below
    · exact tested
    · exact ih expression below
  | ifElse tested testable taken other first second =>
    intro expression member
    simp only [Statement.expressions, List.mem_cons, List.mem_append] at member
    rcases member with rfl | below | below
    · exact tested
    · exact first expression below
    · exact second expression below

end Statement

/-- The nodes of all expressions in a function. -/
def Function.nodes (function : Function) : List Expression :=
  Expression.nodesOfList (Statement.expressionsOfList function.body)

/-- The nodes of a typed function are typed. -/
theorem Function.Typed.nodes {symbols : SymbolTable} {function : Function} {specifier : Specifier}
    {indirection : Nat} {parameters : List Ty} {variadic : Bool}
    (typed : function.Typed symbols specifier indirection parameters variadic) :
    ∀ node ∈ function.nodes, node.Typed symbols := by
  intro node member
  -- The node is in an expression, and the expression in a statement of the body.
  obtain ⟨expression, present, below⟩ := Expression.mem_nodesOfList.mp member
  obtain ⟨statement, inside, here⟩ := Statement.mem_expressionsOfList.mp present
  exact ((typed.body statement inside).expressions expression here).nodes node below

end SmallC
