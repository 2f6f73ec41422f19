import SmallC.Grammar.Units

/-! Reading with a count of its steps and without clocks: the loops turn for as long as their tests
say, and one that turns more often than it may is told apart from every failure. -/

namespace SmallC

/-- A reader, and how many steps it has made. -/
structure Gauge where
  /-- How far a unit has been read. -/
  reader : Reader
  /-- The steps so far. -/
  steps : Nat

/-- What stops a reading. -/
inductive Halt where
  /-- The source is at fault. -/
  | failed (failure : Failure)
  /-- A loop has turned more often than it may. -/
  | endless

/-- A part of reading that counts its steps. -/
abbrev Metered := EStateM Halt Gauge

namespace Metered

variable {α : Type}

/-- One step: a look at a token, a token taken, an act of the checker or a failure. -/
def once (action : Reading α) : Metered α := fun gauge =>
  match action gauge.reader with
  | .ok value reader => .ok value ⟨reader, gauge.steps + 1⟩
  | .error failure reader => .error (.failed failure) ⟨reader, gauge.steps + 1⟩

/-- The reader as it is, which takes no step. -/
def look : Metered Reader :=
  return (← get).reader

open Reading (kind advance check act)

/-- Take a token of the given kind. -/
def expect (wanted : TokenKind) : Metered Token := do
  if (← once kind) = wanted then once advance else once Reading.unexpected

/-- Read items while the token in hand passes the test. -/
def whileAt (test : TokenKind → Bool) (item : Metered α) : (turns : Nat) → Metered (List α)
  | 0 => throw .endless
  | turns + 1 => do
    if test (← once Reading.kind) then
      let first ← item
      let others ← whileAt test item turns
      return first :: others
    else return []

/-- Read one item and further ones after commas. -/
def commaSeparated (item : Metered α) (turns : Nat) : Metered (List α) := do
  let first ← item
  let others ← whileAt (· = .comma) (do discard (once Reading.advance); item) turns
  return first :: others

/-- Read the body of a loop, which ends however the reading does. -/
def insideLoop (body : Metered α) : Metered α := fun gauge =>
  let leaving (gauge : Gauge) : Gauge :=
    { gauge with reader := { gauge.reader with checker := gauge.reader.checker.leaveLoop } }
  match body { gauge with reader := { gauge.reader with checker := gauge.reader.checker.enterLoop } } with
  | .ok value after => .ok value (leaving after)
  | .error halt after => .error halt (leaving after)

/-- Read a name. -/
def name : Metered String :=
  return (← expect .identifier).text

/-- Read a whole number that fits an unsigned word. -/
def wholeNumber : Metered Nat := do
  let token ← expect .integer
  match decimalBelow? UInt32.size token.text with
  | some value => return value
  | none => once (throw (.integerRange token.position.line token.text))

/-! Declarations. -/

/-- Read the specifier that starts a declaration. -/
def specifier : Metered Specifier := do
  match ← once kind with
  | .specifier found => discard (once advance); return found
  | _ => once Reading.unexpected

/-- Count the stars before a name. -/
def stars (turns : Nat) : Metered Nat :=
  return (← whileAt (· = .star) (once advance) turns).length

/-- Read the length of an array, which is not zero. -/
def arrayLength : Metered Nat := do
  let token := (← look).current
  let length ← wholeNumber
  if length = 0 then once (throw (.unexpectedToken token.position.line token.text))
  else return length

/-- Read the brackets after the name of an array. -/
def arrayType (specifier : Specifier) (indirection : Nat) (name : String) : Metered Ty := do
  discard (expect .leftBracket)
  let line := (← look).current.position.line
  let length ← arrayLength
  discard (expect .rightBracket)
  match Ty.sizedArray? specifier indirection length with
  | some type => return type
  | none => once (throw (.arrayTooLarge line name))

/-- Read the type of a variable to the end, brackets following its name. -/
def variableType (specifier : Specifier) (indirection : Nat) (name : String) : Metered Ty := do
  if (← once kind) = .leftBracket then arrayType specifier indirection name
  else return .scalar specifier indirection

/-- Read what may follow the name of a variable, and declare it. -/
def declareObject (specifier : Specifier) (indirection : Nat) (name : String) : Metered Unit := do
  let type ← variableType specifier indirection name
  discard (once (act (Checker.declareVariable name type)))

/-- Read and declare one variable. -/
def declarator (turns : Nat) (specifier : Specifier) : Metered Unit := do
  let indirection ← stars turns
  let name ← name
  declareObject specifier indirection name

/-- Read one declaration of variables. -/
def declaration (turns : Nat) : Metered Unit := do
  let specifier ← specifier
  discard (commaSeparated (declarator turns specifier) turns)
  discard (expect .semicolon)

/-- Read the declarations that start a block. -/
def declarations (turns : Nat) : Metered Unit :=
  discard (whileAt TokenKind.isSpecifier (declaration turns) turns)

/-- Read and declare one parameter. -/
def parameter (turns : Nat) : Metered Ty := do
  let specifier ← specifier
  let indirection ← stars turns
  let name ← name
  let type := Ty.scalar specifier indirection
  discard (once (act (Checker.declareVariable name type)))
  return type

/-- Read the parameters after the first one, and whether dots end them. -/
def furtherParameters (turns : Nat) : (left : Nat) → Metered (List Ty × Bool)
  | 0 => throw .endless
  | left + 1 => do
    if (← once kind) = .comma then
      discard (once advance)
      if (← once kind) = .ellipsis then
        discard (once advance)
        return ([], true)
      let first ← parameter turns
      let others ← furtherParameters turns left
      return (first :: others.1, others.2)
    else return ([], false)

/-- Read a parameter list, and whether dots end it. -/
def parameterList (turns : Nat) : Metered (List Ty × Bool) := do
  if (← once kind) = .voidWord then
    discard (once advance)
    return ([], false)
  let first ← parameter turns
  let others ← furtherParameters turns turns
  return (first :: others.1, others.2)

/-- Read the parameters of a function in a scope that the caller closes. -/
def signature (turns : Nat) (specifier : Specifier) (indirection : Nat) :
    Metered (Ty × ScopeId) := do
  let scope ← once (act Checker.openScope)
  let parameters ← parameterList turns
  return (.function specifier indirection parameters.1 parameters.2, scope)

/-! Expressions. -/

/-- Read a type in parentheses. -/
def typeName (turns : Nat) : Metered Ty := do
  discard (expect .leftParen)
  let specifier ← specifier
  let indirection ← stars turns
  discard (expect .rightParen)
  return .scalar specifier indirection

/-- Read the arguments of a call, up to the closing parenthesis. -/
def callArguments (argument : Metered Expression) (turns : Nat) : Metered (List Expression) := do
  if (← once kind) = .rightParen then return [] else commaSeparated argument turns

mutual

/-- Read an expression, which takes one level. -/
def expression (turns : Nat) : (levels : Nat) → Metered Expression
  | 0 => once Reading.tooDeep
  | levels + 1 => operation turns Tier.all levels
termination_by levels => (levels, 0)

/-- Read operands joined by operators of the first precedence given, or of a tighter one. -/
def operation (turns : Nat) : (tiers : List Tier) → (levels : Nat) → Metered Expression
  | [], levels => prefixed turns levels
  | tier :: tighter, levels => do
    let left ← operation turns tighter levels
    furtherOperands turns tier tighter left levels
termination_by tiers levels => (levels, tiers.length + 4)

/-- Read the operands that follow one on the left; each operator takes one level. -/
def furtherOperands (turns : Nat) (tier : Tier) (tighter : List Tier) (left : Expression)
    (levels : Nat) : Metered Expression := do
  match tier.rule? (← once kind) with
  | none => return left
  | some rule =>
    match levels with
    | 0 => once Reading.tooDeep
    | levels + 1 =>
      discard (once advance)
      let right ← operation turns tighter levels
      let left ← once (check (rule left right))
      furtherOperands turns tier tighter left levels
termination_by (levels, 0)

/-- Read an operand with the operators before it, which takes one level. -/
def prefixed (turns : Nat) : (levels : Nat) → Metered Expression
  | 0 => once Reading.tooDeep
  | levels + 1 => do
    let typed ← once Reading.startsTypeName
    match ← once kind with
    | .bang => discard (once advance); once (check (checkNot (← prefixed turns levels)))
    | .minus => discard (once advance); once (check (checkNegate (← prefixed turns levels)))
    | .star => discard (once advance); once (check (checkDereference (← prefixed turns levels)))
    | .ampersand => discard (once advance); once (check (checkAddress (← prefixed turns levels)))
    | .sizeofWord =>
      discard (once advance)
      if ← once Reading.startsTypeName then return sizeofType (← typeName turns)
      once (check (checkSizeof (← prefixed turns levels)))
    | .leftParen =>
      if typed then
        let target ← typeName turns
        once (check (checkCast target (← prefixed turns levels)))
      else suffixed turns levels
    | _ => suffixed turns levels
termination_by levels => (levels, 3)

/-- Read an operand with the operators after it. -/
def suffixed (turns : Nat) (levels : Nat) : Metered Expression := do
  let operand ← primary turns levels
  furtherSuffixes turns operand levels
termination_by (levels, 2)

/-- Read the operators that follow an operand; each takes one level. -/
def furtherSuffixes (turns : Nat) (operand : Expression) (levels : Nat) : Metered Expression := do
  match ← once kind with
  | .leftBracket =>
    match levels with
    | 0 => once Reading.tooDeep
    | levels + 1 =>
      discard (once advance)
      let index ← expression turns levels
      let operand ← once (check (checkSubscript operand index))
      discard (expect .rightBracket)
      furtherSuffixes turns operand levels
  | .increment =>
    match levels with
    | 0 => once Reading.tooDeep
    | levels + 1 =>
      let operand ← once (check (checkStep .increment operand))
      discard (once advance)
      furtherSuffixes turns operand levels
  | .decrement =>
    match levels with
    | 0 => once Reading.tooDeep
    | levels + 1 =>
      let operand ← once (check (checkStep .decrement operand))
      discard (once advance)
      furtherSuffixes turns operand levels
  | _ => return operand
termination_by (levels, 0)

/-- Read an operand without operators. -/
def primary (turns : Nat) (levels : Nat) : Metered Expression := do
  match ← once kind with
  | .leftParen =>
    discard (once advance)
    let inner ← expression turns levels
    discard (expect .rightParen)
    return inner
  | .character => return .int (characterValue (← once advance).text)
  | .string => return .string (unescape (← once advance).text)
  | .integer => return .int (UInt32.ofNat (← wholeNumber))
  | .real => return .real (← once advance).text
  | .identifier =>
    let symbol ← once (act (Checker.resolve (← name)))
    if (← once kind) = .leftParen then
      discard (once advance)
      let arguments ← callArguments (expression turns levels) turns
      let call ← once (act (Checker.call symbol arguments))
      discard (expect .rightParen)
      return call
    return (← look).checker.identifier symbol
  | _ => once Reading.unexpected
termination_by (levels, 1)

end

/-! Statements. -/

/-- Read an expression or an assignment. -/
def assignment (turns : Nat) (levels : Nat) : Metered Statement := do
  let left ← expression turns levels
  if (← once kind) = .assign then
    discard (once advance)
    let right ← expression turns levels
    once (check (checkAssign left right))
  else return .evaluate left

/-- Read a condition in parentheses. -/
def condition (turns : Nat) (levels : Nat) : Metered Expression := do
  discard (expect .leftParen)
  let value ← expression turns levels
  let test ← once (check (checkTest value))
  discard (expect .rightParen)
  return test

/-- Read a statement. -/
def statement (turns : Nat) : (levels : Nat) → Metered Statement
  | 0 => once Reading.tooDeep
  | levels + 1 => do
    match ← once kind with
    | .leftBrace =>
      discard (once advance)
      let scope ← once (act Checker.openScope)
      declarations turns
      let body ← whileAt (· ≠ .rightBrace) (statement turns levels) turns
      discard (once (act Checker.closeScope))
      discard (expect .rightBrace)
      return .block scope body
    | .breakWord =>
      discard (once advance)
      let leave ← once (check (checkBreak (← look).checker.loops))
      discard (expect .semicolon)
      return leave
    | .returnWord =>
      discard (once advance)
      let value ← expression turns levels
      let leave ← once (check (checkReturn (← look).checker.returned value))
      discard (expect .semicolon)
      return leave
    | .whileWord =>
      discard (once advance)
      let test ← condition turns levels
      let body ← insideLoop (statement turns levels)
      return .whileLoop test body
    | .forWord =>
      discard (once advance)
      discard (expect .leftParen)
      let init ← assignment turns levels
      discard (expect .semicolon)
      let value ← expression turns levels
      let test ← once (check (checkTest value))
      discard (expect .semicolon)
      let increment ← assignment turns levels
      discard (expect .rightParen)
      let body ← insideLoop (statement turns levels)
      return .forLoop init test increment body
    | .ifWord =>
      discard (once advance)
      let test ← condition turns levels
      let body ← statement turns levels
      if (← once kind) = .elseWord then
        discard (once advance)
        let otherwise ← statement turns levels
        return .ifElse test body otherwise
      return .ifThen test body
    | _ =>
      let done ← assignment turns levels
      discard (expect .semicolon)
      return done

/-! Units. -/

/-- Close the parameters of a function without a body, and declare it. -/
def declarePrototype (name : String) (type : Ty) : Metered Unit := do
  once (Reading.adjust Checker.closeParameters)
  discard (once (act (Checker.declareFunction name type)))

/-- Read and declare one variable or function after the first declarator of a declaration. -/
def globalDeclarator (turns : Nat) (specifier : Specifier) : Metered Unit := do
  let indirection ← stars turns
  let name ← name
  if (← once kind) = .leftParen then
    discard (once advance)
    let (type, _) ← signature turns specifier indirection
    declarePrototype name type
    discard (expect .rightParen)
  else declareObject specifier indirection name

/-- Read the declarators after the first one, to the end of the declaration. -/
def furtherDeclarators (turns : Nat) (specifier : Specifier) : Metered Unit := do
  discard (whileAt (· = .comma)
    (do discard (once advance); globalDeclarator turns specifier) turns)
  discard (expect .semicolon)

/-- Read the body of a function whose parameters are in the given scope. -/
def functionBody (turns : Nat) (name : String) (type : Ty) (scope : ScopeId) : Metered Function := do
  let reader ← look
  let parameters := (reader.checker.symbols.symbolsOf scope).length
  if let some specifier := type.specifier? then
    once (Reading.adjust (·.beginFunction (.scalar specifier type.indirection)))
  let symbol ← once (act (Checker.defineFunction name type))
  discard (expect .leftBrace)
  declarations turns
  let body ← whileAt (· ≠ .rightBrace) (statement turns reader.limit) turns
  let scope ← once (act Checker.closeScope)
  discard (expect .rightBrace)
  return { symbol, parameters, scope, body }

/-- Read one global declaration, which may be a function with its body. -/
def topLevel (turns : Nat) : Metered (Option Function) := do
  let specifier ← specifier
  let indirection ← stars turns
  let name ← name
  if (← once kind) = .leftParen then
    discard (once advance)
    let (type, scope) ← signature turns specifier indirection
    discard (expect .rightParen)
    if (← once kind) = .leftBrace then
      return some (← functionBody turns name type scope)
    declarePrototype name type
  else declareObject specifier indirection name
  furtherDeclarators turns specifier
  return none

/-- Read global declarations to the end of the source: what comes of it, unless a loop turns too often,
and the steps that have been made. -/
def readDeclarations {σ : Type} (consume : Consumer σ) (turns : Nat) :
    (left : Nat) → Gauge → σ → Option (Outcome σ) × Nat
  | 0, gauge, _ => (none, gauge.steps)
  | left + 1, gauge, output =>
    let steps := gauge.steps + 1
    if gauge.reader.current.kind = .done then (some ⟨gauge.reader, output, none⟩, steps)
    else
      match topLevel turns ⟨gauge.reader, steps⟩ with
      | .error .endless after => (none, after.steps)
      | .error (.failed failure) after => (some ⟨after.reader, output, some failure⟩, after.steps)
      | .ok none after => readDeclarations consume turns left after output
      | .ok (some function) after =>
        let (symbols, output) := consume function after.reader.checker.symbols output
        let checker := { after.reader.checker with symbols }
        readDeclarations consume turns left ⟨{ after.reader with checker }, after.steps + 1⟩ output

/-- Read a unit, every loop of which may turn so often. -/
def readUnit {σ : Type} (consume : Consumer σ) (turns : Nat) (tokens : List Token) (limit : Nat)
    (output : σ) : Option (Outcome σ) × Nat :=
  readDeclarations consume turns turns ⟨Reader.before tokens limit {}, 0⟩ output

end Metered

end SmallC
