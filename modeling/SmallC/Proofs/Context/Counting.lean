import SmallC.Grammar.Units

/-! Reading with a count of the open levels of nesting: each level is counted where it is entered and
given back where it ends, and a chain of operators gives all its levels back at once. -/

namespace SmallC

/-- A reader, and how many levels are open around it. -/
structure Meter where
  /-- How far a unit has been read. -/
  reader : Reader
  /-- The open levels. -/
  depth : Nat

/-- Change the checker. -/
def Meter.adjust (meter : Meter) (change : Checker → Checker) : Meter :=
  { meter with reader := { meter.reader with checker := change meter.reader.checker } }

/-- A step of reading that counts levels. -/
abbrev Counted := EStateM Failure Meter

namespace Counted

variable {α : Type}

/-- A step that opens no level. -/
def plain (action : Reading α) : Counted α := fun meter =>
  match action meter.reader with
  | .ok value reader => .ok value { meter with reader }
  | .error failure reader => .error failure { meter with reader }

/-- Open one more level, which fails at the limit. -/
def deepen : Counted PUnit := fun meter =>
  if meter.reader.limit ≤ meter.depth then plain Reading.tooDeep meter
  else .ok ⟨⟩ { meter with depth := meter.depth + 1 }

/-- Read a part, and do something to the meter however the reading ends. -/
def leaving (leave : Meter → Meter) (body : Counted α) : Counted α := fun meter =>
  match body meter with
  | .ok value after => .ok value (leave after)
  | .error failure after => .error failure (leave after)

/-- Read one level deeper, and go back up. -/
def nested (body : Counted α) : Counted α := do
  deepen
  leaving (fun meter => { meter with depth := meter.depth - 1 }) body

/-- Read a chain that opens a level with every operator, and go back to where it started. -/
def chain (body : Counted α) : Counted α := fun meter =>
  leaving (fun after => { after with depth := meter.depth }) body meter

/-- Read the body of a loop, and leave the loop. -/
def insideLoop (body : Counted α) : Counted α := fun meter =>
  leaving (·.adjust Checker.leaveLoop) body (meter.adjust Checker.enterLoop)

/-- Read items while the token in hand passes the test, each item taking a token of the clock. -/
def whileAt (test : TokenKind → Bool) (item : Counted α) : (clock : List Token) → Counted (List α)
  | [] => do if test (← plain Reading.kind) then plain Reading.unexpected else return []
  | _ :: clock => do
    if test (← plain Reading.kind) then
      let first ← item
      let others ← whileAt test item clock
      return first :: others
    else return []

/-- Read items while the token in hand passes the test. -/
def many (test : TokenKind → Bool) (item : Counted α) : Counted (List α) := do
  whileAt test item (← get).reader.remaining

/-- Read one item and further ones after commas. -/
def commaSeparated (item : Counted α) : Counted (List α) := do
  let first ← item
  let others ← many (· = .comma) (do discard (plain Reading.advance); item)
  return first :: others

/-- Read the arguments of a call, up to the closing parenthesis. -/
def callArguments (argument : Counted Expression) : Counted (List Expression) := do
  if (← plain Reading.kind) = .rightParen then return [] else commaSeparated argument

open Reading (kind advance expect check act)

-- The clock only bounds the recursion: it is long enough where it covers the levels that are left.
mutual

/-- Read an expression one level deeper. -/
def expression : (clock : Nat) → Counted Expression
  | 0 => plain Reading.tooDeep
  | clock + 1 => nested (operation Tier.all clock)
termination_by clock => (clock, 0)

/-- Read operands joined by operators of the first precedence given, or of a tighter one. -/
def operation : (tiers : List Tier) → (clock : Nat) → Counted Expression
  | [], clock => prefixed clock
  | tier :: tighter, clock => chain do
    let left ← operation tighter clock
    furtherOperands tier tighter left clock
termination_by tiers clock => (clock, tiers.length + 4)

/-- Read the operands that follow one on the left; each operator opens a level. -/
def furtherOperands (tier : Tier) (tighter : List Tier) (left : Expression) (clock : Nat) :
    Counted Expression := do
  match tier.rule? (← plain kind) with
  | none => return left
  | some rule =>
    match clock with
    | 0 => plain Reading.tooDeep
    | clock + 1 =>
      deepen
      discard (plain advance)
      let right ← operation tighter clock
      let left ← plain (check (rule left right))
      furtherOperands tier tighter left clock
termination_by (clock, 0)

/-- Read an operand with the operators before it one level deeper. -/
def prefixed : (clock : Nat) → Counted Expression
  | 0 => plain Reading.tooDeep
  | clock + 1 => nested do
    let typed ← plain Reading.startsTypeName
    match ← plain kind with
    | .bang => discard (plain advance); plain (check (checkNot (← prefixed clock)))
    | .minus => discard (plain advance); plain (check (checkNegate (← prefixed clock)))
    | .star => discard (plain advance); plain (check (checkDereference (← prefixed clock)))
    | .ampersand => discard (plain advance); plain (check (checkAddress (← prefixed clock)))
    | .sizeofWord =>
      discard (plain advance)
      if ← plain Reading.startsTypeName then return sizeofType (← plain Reading.typeName)
      plain (check (checkSizeof (← prefixed clock)))
    | .leftParen =>
      if typed then
        let target ← plain Reading.typeName
        plain (check (checkCast target (← prefixed clock)))
      else suffixed clock
    | _ => suffixed clock
termination_by clock => (clock, 3)

/-- Read an operand with the operators after it. -/
def suffixed (clock : Nat) : Counted Expression := chain do
  let operand ← primary clock
  furtherSuffixes operand clock
termination_by (clock, 2)

/-- Read the operators that follow an operand; each opens a level. -/
def furtherSuffixes (operand : Expression) (clock : Nat) : Counted Expression := do
  match ← plain kind with
  | .leftBracket =>
    match clock with
    | 0 => plain Reading.tooDeep
    | clock + 1 =>
      deepen
      discard (plain advance)
      let index ← expression clock
      let operand ← plain (check (checkSubscript operand index))
      discard (plain (expect .rightBracket))
      furtherSuffixes operand clock
  | .increment =>
    match clock with
    | 0 => plain Reading.tooDeep
    | clock + 1 =>
      deepen
      let operand ← plain (check (checkStep .increment operand))
      discard (plain advance)
      furtherSuffixes operand clock
  | .decrement =>
    match clock with
    | 0 => plain Reading.tooDeep
    | clock + 1 =>
      deepen
      let operand ← plain (check (checkStep .decrement operand))
      discard (plain advance)
      furtherSuffixes operand clock
  | _ => return operand
termination_by (clock, 0)

/-- Read an operand without operators. -/
def primary (clock : Nat) : Counted Expression := do
  match ← plain kind with
  | .leftParen =>
    discard (plain advance)
    let inner ← expression clock
    discard (plain (expect .rightParen))
    return inner
  | .character => return .int (characterValue (← plain advance).text)
  | .string => return .string (unescape (← plain advance).text)
  | .integer => return .int (UInt32.ofNat (← plain Reading.wholeNumber))
  | .real => return .real (← plain advance).text
  | .identifier =>
    let symbol ← plain (act (Checker.resolve (← plain Reading.name)))
    if (← plain kind) = .leftParen then
      discard (plain advance)
      let arguments ← callArguments (expression clock)
      let call ← plain (act (Checker.call symbol arguments))
      discard (plain (expect .rightParen))
      return call
    return (← get).reader.checker.identifier symbol
  | _ => plain Reading.unexpected
termination_by (clock, 1)

end

/-- Read an expression or an assignment. -/
def assignment (clock : Nat) : Counted Statement := do
  let left ← expression clock
  if (← plain kind) = .assign then
    discard (plain advance)
    let right ← expression clock
    plain (check (checkAssign left right))
  else return .evaluate left

/-- Read a condition in parentheses. -/
def condition (clock : Nat) : Counted Expression := do
  discard (plain (expect .leftParen))
  let value ← expression clock
  let test ← plain (check (checkTest value))
  discard (plain (expect .rightParen))
  return test

/-- Read a statement one level deeper. -/
def statement : (clock : Nat) → Counted Statement
  | 0 => plain Reading.tooDeep
  | clock + 1 => nested do
    match ← plain kind with
    | .leftBrace =>
      discard (plain advance)
      let scope ← plain (act Checker.openScope)
      plain Reading.declarations
      let body ← many (· ≠ .rightBrace) (statement clock)
      discard (plain (act Checker.closeScope))
      discard (plain (expect .rightBrace))
      return .block scope body
    | .breakWord =>
      discard (plain advance)
      let leave ← plain (check (checkBreak (← get).reader.checker.loops))
      discard (plain (expect .semicolon))
      return leave
    | .returnWord =>
      discard (plain advance)
      let value ← expression clock
      let leave ← plain (check (checkReturn (← get).reader.checker.returned value))
      discard (plain (expect .semicolon))
      return leave
    | .whileWord =>
      discard (plain advance)
      let test ← condition clock
      let body ← insideLoop (statement clock)
      return .whileLoop test body
    | .forWord =>
      discard (plain advance)
      discard (plain (expect .leftParen))
      let init ← assignment clock
      discard (plain (expect .semicolon))
      let value ← expression clock
      let test ← plain (check (checkTest value))
      discard (plain (expect .semicolon))
      let increment ← assignment clock
      discard (plain (expect .rightParen))
      let body ← insideLoop (statement clock)
      return .forLoop init test increment body
    | .ifWord =>
      discard (plain advance)
      let test ← condition clock
      let body ← statement clock
      if (← plain kind) = .elseWord then
        discard (plain advance)
        let otherwise ← statement clock
        return .ifElse test body otherwise
      return .ifThen test body
    | _ =>
      let done ← assignment clock
      discard (plain (expect .semicolon))
      return done

/-- Read the body of a function whose parameters are in the given scope. -/
def functionBody (name : String) (type : Ty) (scope : ScopeId) : Counted Function := do
  let reader := (← get).reader
  let parameters := (reader.checker.symbols.symbolsOf scope).length
  if let some specifier := type.specifier? then
    plain (Reading.adjust (·.beginFunction (.scalar specifier type.indirection)))
  let symbol ← plain (act (Checker.defineFunction name type))
  discard (plain (expect .leftBrace))
  plain Reading.declarations
  let body ← many (· ≠ .rightBrace) (statement reader.limit)
  let scope ← plain (act Checker.closeScope)
  discard (plain (expect .rightBrace))
  return { symbol, parameters, scope, body }

/-- Read one global declaration, which may be a function with its body. -/
def topLevel : Counted (Option Function) := do
  let specifier ← plain Reading.specifier
  let indirection ← plain Reading.stars
  let name ← plain Reading.name
  if (← plain kind) = .leftParen then
    discard (plain advance)
    let (type, scope) ← plain (Reading.signature specifier indirection)
    discard (plain (expect .rightParen))
    if (← plain kind) = .leftBrace then
      return some (← functionBody name type scope)
    plain (Reading.declarePrototype name type)
  else plain (Reading.declareObject specifier indirection name)
  plain (Reading.furtherDeclarators specifier)
  return none

/-- Read global declarations to the end of the source, each taking a token of the clock: what comes
of it, and how many levels are open then. -/
def readDeclarations {σ : Type} (consume : Consumer σ) :
    (clock : List Token) → Meter → σ → Outcome σ × Nat
  | clock, meter, output =>
    if meter.reader.current.kind = .done then (⟨meter.reader, output, none⟩, meter.depth)
    else
      match clock with
      | [] => (⟨meter.reader, output, some (.unexpectedToken meter.reader.current.position.line
          meter.reader.current.shown)⟩, meter.depth)
      | _ :: clock =>
        match topLevel meter with
        | .error failure after => (⟨after.reader, output, some failure⟩, after.depth)
        | .ok none after => readDeclarations consume clock after output
        | .ok (some function) after =>
          let (symbols, output) := consume function after.reader.checker.symbols output
          let checker := { after.reader.checker with symbols }
          readDeclarations consume clock { after with reader := { after.reader with checker } } output

/-- Read a unit, starting outside of all levels. -/
def readUnit {σ : Type} (consume : Consumer σ) (tokens : List Token) (limit : Nat) (output : σ) :
    Outcome σ × Nat :=
  let reader := Reader.before tokens limit {}
  readDeclarations consume reader.remaining ⟨reader, 0⟩ output

end Counted

end SmallC
