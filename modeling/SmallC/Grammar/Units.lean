import SmallC.Grammar.Statements

/-! Units: global declarations and functions, each function handed on as soon as it is complete. -/

namespace SmallC

namespace Reading

/-- Close the parameters of a function without a body, and declare it. -/
def declarePrototype (name : String) (type : Ty) : Reading Unit := do
  adjust Checker.closeParameters
  discard (act (Checker.declareFunction name type))

/-- Read and declare one variable or function after the first declarator of a declaration. -/
def globalDeclarator (specifier : Specifier) : Reading Unit := do
  let indirection ← stars
  let name ← name
  if (← kind) = .leftParen then
    discard advance
    -- Only the first declarator of a declaration may have a body.
    let (type, _) ← signature specifier indirection
    declarePrototype name type
    discard (expect .rightParen)
  else declareObject specifier indirection name

/-- Read the declarators after the first one, to the end of the declaration. -/
def furtherDeclarators (specifier : Specifier) : Reading Unit := do
  discard (many (· = .comma) (do discard advance; globalDeclarator specifier))
  discard (expect .semicolon)

/-- Read the body of a function whose parameters are in the given scope. -/
def functionBody (name : String) (type : Ty) (scope : ScopeId) : Reading Function := do
  -- The scope holds the parameters and nothing else so far.
  let reader ← get
  let parameters := (reader.checker.symbols.symbolsOf scope).length
  if let some specifier := type.specifier? then
    adjust (·.beginFunction (.scalar specifier type.indirection))
  let symbol ← act (Checker.defineFunction name type)
  discard (expect .leftBrace)
  declarations
  let body ← many (· ≠ .rightBrace) (statement reader.limit)
  let scope ← act Checker.closeScope
  discard (expect .rightBrace)
  return { symbol, parameters, scope, body }

/-- Read one global declaration, which may be a function with its body. -/
def topLevel : Reading (Option Function) := do
  let specifier ← specifier
  let indirection ← stars
  let name ← name
  if (← kind) = .leftParen then
    discard advance
    let (type, scope) ← signature specifier indirection
    discard (expect .rightParen)
    if (← kind) = .leftBrace then
      return some (← functionBody name type scope)
    declarePrototype name type
  else declareObject specifier indirection name
  furtherDeclarators specifier
  return none

end Reading

/-- How far a unit was read, what became of its functions, and what stopped it. -/
structure Outcome (σ : Type) where
  /-- The reader where it stopped. -/
  reader : Reader
  /-- What the consumer of the functions has built. -/
  output : σ
  /-- Why the unit was not read to its end. -/
  failure? : Option Failure

/-- What is done with each finished function, which may place its symbols in a frame. -/
abbrev Consumer (σ : Type) := Function → SymbolTable → σ → SymbolTable × σ

/-- Read global declarations to the end of the source, each taking a token of the clock. -/
def readDeclarations {σ : Type} (consume : Consumer σ) :
    (clock : List Token) → Reader → σ → Outcome σ
  | clock, reader, output =>
    if reader.current.kind = .done then ⟨reader, output, none⟩
    else
      match clock with
      | [] => ⟨reader, output, some (.unexpectedToken reader.current.position.line
          reader.current.shown)⟩
      | _ :: clock =>
        match Reading.topLevel reader with
        | .error failure reader => ⟨reader, output, some failure⟩
        | .ok none reader => readDeclarations consume clock reader output
        | .ok (some function) reader =>
          let (symbols, output) := consume function reader.checker.symbols output
          let checker := { reader.checker with symbols }
          readDeclarations consume clock { reader with checker } output

/-- Read a unit, handing each function on as soon as it is complete. -/
def readUnit {σ : Type} (consume : Consumer σ) (tokens : List Token) (limit : Nat) (output : σ) :
    Outcome σ :=
  let reader := Reader.before tokens limit {}
  readDeclarations consume reader.remaining reader output

end SmallC
