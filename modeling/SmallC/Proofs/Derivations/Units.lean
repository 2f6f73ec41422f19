import SmallC.Grammar.Units
import SmallC.Proofs.Derivations.Phrases

/-! Units: the grammar of declarations, statements and functions, and what checking makes of them. -/

namespace SmallC

/-! Declarations. -/

/-- A declared variable without its specifier. -/
structure Declarator where
  /-- How many stars stand before the name. -/
  indirection : Nat
  /-- The name. -/
  name : String
  /-- The length of an array. -/
  length? : Option Nat

namespace Declarator

/-- The type of the variable. -/
def type (specifier : Specifier) (declarator : Declarator) : Ty :=
  match declarator.length? with
  | none => .scalar specifier declarator.indirection
  | some length => .array specifier declarator.indirection length

/-- Declare the variable in the current scope. -/
def elaborate (specifier : Specifier) (declarator : Declarator) : Checking Unit := do
  discard (Checker.declareVariable declarator.name (declarator.type specifier))

/-- Stars, a name and perhaps a length in brackets, which is not zero and not too large. -/
inductive Derives (specifier : Specifier) : List Token → Declarator → List Token → Prop where
  /-- A scalar. -/
  | scalar {start rest : List Token} {indirection : Nat} {name : Token}
    (stars : Stars start indirection (name :: rest)) (named : name.kind = .identifier) :
    Derives specifier start ⟨indirection, name.text, none⟩ rest
  /-- An array. -/
  | array {start rest : List Token} {indirection length : Nat} {name opening number closing : Token}
    (stars : Stars start indirection (name :: opening :: number :: closing :: rest))
    (named : name.kind = .identifier) (opens : opening.kind = .leftBracket)
    (spelled : number.kind = .integer)
    (fits : decimalBelow? UInt32.size number.text = some length) (nonempty : length ≠ 0)
    (closes : closing.kind = .rightBracket)
    (small : length * Ty.elementSize specifier indirection ≤ Ty.objectCeiling) :
    Derives specifier start ⟨indirection, name.text, some length⟩ rest

end Declarator

/-- Variables that share a specifier. -/
structure Declaration where
  /-- The specifier. -/
  specifier : Specifier
  /-- The variables. -/
  declarators : List Declarator

namespace Declaration

/-- Declare the variables in order. -/
def elaborate (declaration : Declaration) : Checking Unit := do
  discard (declaration.declarators.mapM' (Declarator.elaborate declaration.specifier))

/-- A specifier, variables between commas, and a semicolon. -/
inductive Derives : List Token → Declaration → List Token → Prop where
  /-- The only form of a declaration. -/
  | shared {word closing : Token} {start rest : List Token} {specifier : Specifier}
    {declarators : List Declarator} (specified : word.kind = .specifier specifier)
    (declared : Commas (Declarator.Derives specifier) start declarators (closing :: rest))
    (closes : closing.kind = .semicolon) :
    Derives (word :: start) ⟨specifier, declarators⟩ rest

end Declaration

/-! Parameters. -/

/-- A parameter. -/
structure Parameter where
  /-- The specifier. -/
  specifier : Specifier
  /-- How many stars stand before the name. -/
  indirection : Nat
  /-- The name. -/
  name : String

namespace Parameter

/-- Declare the parameter in the current scope. -/
def elaborate (parameter : Parameter) : Checking Ty := do
  let type := Ty.scalar parameter.specifier parameter.indirection
  discard (Checker.declareVariable parameter.name type)
  return type

/-- A specifier, stars and a name. -/
inductive Derives : List Token → Parameter → List Token → Prop where
  /-- The only form of a parameter. -/
  | scalar {word name : Token} {start rest : List Token} {specifier : Specifier} {indirection : Nat}
    (specified : word.kind = .specifier specifier)
    (stars : Stars start indirection (name :: rest)) (named : name.kind = .identifier) :
    Derives (word :: start) ⟨specifier, indirection, name.text⟩ rest

end Parameter

/-- A list of parameters. -/
structure Parameters where
  /-- The parameters. -/
  listed : List Parameter
  /-- Whether dots end the list. -/
  variadic : Bool

namespace Parameters

/-- Declare the parameters in a scope that they open. -/
def elaborate (specifier : Specifier) (indirection : Nat) (parameters : Parameters) :
    Checking (Ty × ScopeId) := do
  let scope ← Checker.openScope
  let types ← parameters.listed.mapM' Parameter.elaborate
  return (.function specifier indirection types parameters.variadic, scope)

/-- The word for no parameters, or parameters between commas, perhaps with dots after them. -/
inductive Derives : List Token → Parameters → List Token → Prop where
  /-- No parameters. -/
  | nothing {word : Token} {rest : List Token} (spelled : word.kind = .voidWord) :
    Derives (word :: rest) ⟨[], false⟩ rest
  /-- As many parameters as are listed. -/
  | closed {start rest : List Token} {listed : List Parameter}
    (parameters : Commas Parameter.Derives start listed rest) :
    Derives start ⟨listed, false⟩ rest
  /-- At least as many parameters as are listed. -/
  | variadic {comma dots : Token} {start rest : List Token} {listed : List Parameter}
    (parameters : Commas Parameter.Derives start listed (comma :: dots :: rest))
    (separated : comma.kind = .comma) (dotted : dots.kind = .ellipsis) :
    Derives start ⟨listed, true⟩ rest

end Parameters

/-! Statements. -/

/-- What a run of tokens says as a statement, before anything is checked. -/
inductive Clause where
  /-- An expression alone. -/
  | evaluate (value : Phrase)
  /-- An assignment. -/
  | assign (left right : Phrase)
  /-- The end of a loop. -/
  | breakLoop
  /-- The end of a function. -/
  | returnValue (value : Phrase)
  /-- Declarations and then statements. -/
  | block (declared : List Declaration) (body : List Clause)
  /-- A loop with a test. -/
  | whileLoop (test : Phrase) (body : Clause)
  /-- A loop with a header. -/
  | forLoop (init : Clause) (test : Phrase) (increment body : Clause)
  /-- A conditional with one branch. -/
  | ifThen (test : Phrase) (body : Clause)
  /-- A conditional with two branches. -/
  | ifElse (test : Phrase) (body otherwise : Clause)

namespace Clause

/-- Check the phrase of a condition. -/
def elaborateTest (test : Phrase) : Checking Expression := do
  Checker.record (checkTest (← test.elaborate))

/-- Check the body of a loop with one loop more around it. -/
def elaborateTurn {α : Type} (body : Checking α) : Checking α := do
  modify Checker.enterLoop
  let value ← body
  modify Checker.leaveLoop
  return value

mutual

/-- Check a statement from its first token to its last. -/
def elaborate : Clause → Checking Statement
  | .evaluate value => return .evaluate (← value.elaborate)
  | .assign left right => do
    let left ← left.elaborate
    let right ← right.elaborate
    Checker.record (checkAssign left right)
  | .breakLoop => do Checker.record (checkBreak (← get).loops)
  | .returnValue value => do
    let value ← value.elaborate
    Checker.record (checkReturn (← get).returned value)
  | .block declared body => do
    let scope ← Checker.openScope
    discard (declared.mapM' Declaration.elaborate)
    let body ← elaborateAll body
    discard Checker.closeScope
    return .block scope body
  | .whileLoop test body => do
    let test ← elaborateTest test
    let body ← elaborateTurn (elaborate body)
    return .whileLoop test body
  | .forLoop init test increment body => do
    let init ← elaborate init
    let test ← elaborateTest test
    let increment ← elaborate increment
    let body ← elaborateTurn (elaborate body)
    return .forLoop init test increment body
  | .ifThen test body => do
    let test ← elaborateTest test
    let body ← elaborate body
    return .ifThen test body
  | .ifElse test body otherwise => do
    let test ← elaborateTest test
    let body ← elaborate body
    let otherwise ← elaborate otherwise
    return .ifElse test body otherwise

/-- Check statements in order. -/
def elaborateAll : List Clause → Checking (List Statement)
  | [] => return []
  | first :: rest => do
    let first ← elaborate first
    let rest ← elaborateAll rest
    return first :: rest

end

/-- Whether another branch could still follow, because the last conditional inside has only one. -/
def dangles : Clause → Bool
  | .ifThen .. => true
  | .ifElse _ _ otherwise => otherwise.dangles
  | .whileLoop _ body | .forLoop _ _ _ body => body.dangles
  | .evaluate _ | .assign .. | .breakLoop | .returnValue _ | .block .. => false

/-- No branch of a conditional inside follows. -/
def EndsBefore (clause : Clause) (follows : TokenKind) : Prop :=
  clause.dangles = true → follows ≠ .elseWord

/-- An expression, or two with the sign of assignment between them. -/
inductive Assigns : List Token → Clause → List Token → Prop where
  /-- An expression alone. -/
  | evaluate {start rest : List Token} {value : Phrase}
    (derived : Phrase.Derives .expression start value rest) : Assigns start (.evaluate value) rest
  /-- A value for a place. -/
  | assign {sign : Token} {start middle rest : List Token} {left right : Phrase}
    (first : Phrase.Derives .expression start left (sign :: middle))
    (spelled : sign.kind = .assign) (second : Phrase.Derives .expression middle right rest) :
    Assigns start (.assign left right) rest

/-- An expression in parentheses. -/
inductive Condition : List Token → Phrase → List Token → Prop where
  /-- The only form of a condition. -/
  | parenthesised {opening closing : Token} {start rest : List Token} {test : Phrase}
    (opens : opening.kind = .leftParen)
    (derived : Phrase.Derives .expression start test (closing :: rest))
    (closes : closing.kind = .rightParen) : Condition (opening :: start) test rest

/-- The grammar of statements: the clause that stands between two points of a unit. -/
inductive Derives : List Token → Clause → List Token → Prop where
  /-- An expression or an assignment, and a semicolon. -/
  | simple {closing : Token} {start rest : List Token} {clause : Clause}
    (assigns : Assigns start clause (closing :: rest)) (closes : closing.kind = .semicolon) :
    Derives start clause rest
  /-- The word that leaves a loop. -/
  | breakLoop {word closing : Token} {rest : List Token} (spelled : word.kind = .breakWord)
    (closes : closing.kind = .semicolon) : Derives (word :: closing :: rest) .breakLoop rest
  /-- The word that leaves a function, with a value. -/
  | returnValue {word closing : Token} {start rest : List Token} {value : Phrase}
    (spelled : word.kind = .returnWord)
    (derived : Phrase.Derives .expression start value (closing :: rest))
    (closes : closing.kind = .semicolon) : Derives (word :: start) (.returnValue value) rest
  /-- Declarations before statements in braces. -/
  | block {opening closing : Token} {start middle rest : List Token} {declared : List Declaration}
    {body : List Clause} (opens : opening.kind = .leftBrace)
    (declares : Run Declaration.Derives start declared middle)
    (runs : Run Derives middle body (closing :: rest)) (closes : closing.kind = .rightBrace) :
    Derives (opening :: start) (.block declared body) rest
  /-- A loop with a test. -/
  | whileLoop {word : Token} {start middle rest : List Token} {test : Phrase} {body : Clause}
    (spelled : word.kind = .whileWord) (tests : Condition start test middle)
    (turn : Derives middle body rest) : Derives (word :: start) (.whileLoop test body) rest
  /-- A loop with a header of two assignments around a test. -/
  | forLoop {word opening first second closing : Token} {start tested stepped turned rest : List Token}
    {init increment body : Clause} {test : Phrase} (spelled : word.kind = .forWord)
    (opens : opening.kind = .leftParen) (starts : Assigns start init (first :: tested))
    (separates : first.kind = .semicolon)
    (tests : Phrase.Derives .expression tested test (second :: stepped))
    (parts : second.kind = .semicolon) (steps : Assigns stepped increment (closing :: turned))
    (closes : closing.kind = .rightParen) (turn : Derives turned body rest) :
    Derives (word :: opening :: start) (.forLoop init test increment body) rest
  /-- A conditional with one branch. -/
  | ifThen {word : Token} {start middle rest : List Token} {test : Phrase} {body : Clause}
    (spelled : word.kind = .ifWord) (tests : Condition start test middle)
    (taken : Derives middle body rest) : Derives (word :: start) (.ifThen test body) rest
  /-- A conditional with two branches, the first of which leaves no conditional without its own. -/
  | ifElse {word between : Token} {start middle further rest : List Token} {test : Phrase}
    {body otherwise : Clause} (spelled : word.kind = .ifWord) (tests : Condition start test middle)
    (taken : Derives middle body (between :: further)) (closed : body.dangles = false)
    (parts : between.kind = .elseWord) (other : Derives further otherwise rest) :
    Derives (word :: start) (.ifElse test body otherwise) rest

end Clause

/-! Units. -/

/-- A declared variable or function of the unit, without its specifier. -/
inductive GlobalDeclarator where
  /-- A variable. -/
  | object (declarator : Declarator)
  /-- A function without a body. -/
  | prototype (indirection : Nat) (name : String) (parameters : Parameters)

namespace GlobalDeclarator

/-- Declare the variable or the function in the unit. -/
def elaborate (specifier : Specifier) : GlobalDeclarator → Checking Unit
  | .object declarator => declarator.elaborate specifier
  | .prototype indirection name parameters => do
    let signature ← parameters.elaborate specifier indirection
    -- The parameters are forgotten where no body follows.
    modify Checker.closeParameters
    discard (Checker.declareFunction name signature.1)

/-- A variable, or stars, a name and parameters in parentheses. -/
inductive Derives (specifier : Specifier) : List Token → GlobalDeclarator → List Token → Prop where
  /-- A variable. -/
  | object {start rest : List Token} {declarator : Declarator}
    (derived : declarator.Derives specifier start rest) :
    Derives specifier start (.object declarator) rest
  /-- A function without a body. -/
  | prototype {name opening closing : Token} {start middle rest : List Token} {indirection : Nat}
    {parameters : Parameters} (stars : Stars start indirection (name :: opening :: middle))
    (named : name.kind = .identifier) (opens : opening.kind = .leftParen)
    (derived : parameters.Derives middle (closing :: rest)) (closes : closing.kind = .rightParen) :
    Derives specifier start (.prototype indirection name.text parameters) rest

end GlobalDeclarator

/-- A function with its body. -/
structure Definition where
  /-- The specifier of the returned type. -/
  specifier : Specifier
  /-- The stars of the returned type. -/
  indirection : Nat
  /-- The name. -/
  name : String
  /-- The parameters. -/
  parameters : Parameters
  /-- The declarations of the body. -/
  declared : List Declaration
  /-- The statements of the body. -/
  body : List Clause

/-- Check a function; its body stands in the scope of its parameters. -/
def Definition.elaborate (definition : Definition) : Checking Function := do
  let signature ← definition.parameters.elaborate definition.specifier definition.indirection
  let parameters := ((← get).symbols.symbolsOf signature.2).length
  modify (·.beginFunction (.scalar definition.specifier definition.indirection))
  let symbol ← Checker.defineFunction definition.name signature.1
  discard (definition.declared.mapM' Declaration.elaborate)
  let body ← Clause.elaborateAll definition.body
  let scope ← Checker.closeScope
  return { symbol, parameters, scope, body }

/-- What stands at the top of a unit. -/
inductive Global where
  /-- Variables and functions without bodies that share a specifier. -/
  | declaration (specifier : Specifier) (declarators : List GlobalDeclarator)
  /-- A function with its body. -/
  | definition (definition : Definition)

namespace Global

/-- Check what stands at the top of a unit, which may be a function to be handed on. -/
def elaborate : Global → Checking (Option Function)
  | .declaration specifier declarators => do
    discard (declarators.mapM' (GlobalDeclarator.elaborate specifier))
    return none
  | .definition function => return some (← function.elaborate)

/-- The grammar of what stands at the top of a unit. -/
inductive Derives : List Token → Global → List Token → Prop where
  /-- A specifier, variables and functions between commas, and a semicolon. -/
  | declaration {word closing : Token} {start rest : List Token} {specifier : Specifier}
    {declarators : List GlobalDeclarator} (specified : word.kind = .specifier specifier)
    (declared : Commas (GlobalDeclarator.Derives specifier) start declarators (closing :: rest))
    (closes : closing.kind = .semicolon) :
    Derives (word :: start) (.declaration specifier declarators) rest
  /-- A function, its declarations before its statements in braces. -/
  | definition {word name opening closing brace last : Token}
    {start listed declared body rest : List Token} {specifier : Specifier} {indirection : Nat}
    {parameters : Parameters} {declarations : List Declaration} {clauses : List Clause}
    (specified : word.kind = .specifier specifier)
    (stars : Stars start indirection (name :: opening :: listed)) (named : name.kind = .identifier)
    (opens : opening.kind = .leftParen)
    (derived : parameters.Derives listed (closing :: brace :: declared))
    (closes : closing.kind = .rightParen) (begins : brace.kind = .leftBrace)
    (declares : Run Declaration.Derives declared declarations body)
    (runs : Run Clause.Derives body clauses (last :: rest)) (ends : last.kind = .rightBrace) :
    Derives (word :: start)
      (.definition ⟨specifier, indirection, name.text, parameters, declarations, clauses⟩) rest

/-- Check a unit in order, every function being handed on as soon as it is complete. -/
def elaborateAll {σ : Type} (consume : Consumer σ) :
    List Global → Checker → σ → Checker × σ
  | [], checker, output => (checker, output)
  | first :: rest, checker, output =>
    match first.elaborate checker with
    | (none, checker) => elaborateAll consume rest checker output
    | (some function, checker) =>
      let consumed := consume function checker.symbols output
      elaborateAll consume rest { checker with symbols := consumed.1 } consumed.2

end Global

/-- The grammar of units: what stands before the end of the source. -/
def DerivesUnit (tokens : List Token) (globals : List Global) : Prop :=
  ∃ last, last.kind = .done ∧ Run Global.Derives tokens globals [last]

end SmallC
