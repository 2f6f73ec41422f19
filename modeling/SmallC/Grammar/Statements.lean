import SmallC.Grammar.Expressions

/-! Statements, each of which takes one level of nesting. -/

namespace SmallC

namespace Reading

/-- Read an expression or an assignment. -/
def assignment (levels : Nat) : Reading Statement := do
  let left ← expression levels
  if (← kind) = .assign then
    discard advance
    let right ← expression levels
    check (checkAssign left right)
  else return .evaluate left

/-- Read a condition in parentheses. -/
def condition (levels : Nat) : Reading Expression := do
  discard (expect .leftParen)
  let value ← expression levels
  let test ← check (checkTest value)
  discard (expect .rightParen)
  return test

/-- Read a statement. -/
def statement : (levels : Nat) → Reading Statement
  | 0 => tooDeep
  | levels + 1 => do
    match ← kind with
    | .leftBrace =>
      discard advance
      let scope ← act Checker.openScope
      declarations
      let body ← many (· ≠ .rightBrace) (statement levels)
      discard (act Checker.closeScope)
      discard (expect .rightBrace)
      return .block scope body
    | .breakWord =>
      discard advance
      let leave ← check (checkBreak (← get).checker.loops)
      discard (expect .semicolon)
      return leave
    | .returnWord =>
      discard advance
      let value ← expression levels
      -- The value is judged before the semicolon is looked at.
      let leave ← check (checkReturn (← get).checker.returned value)
      discard (expect .semicolon)
      return leave
    | .whileWord =>
      discard advance
      let test ← condition levels
      let body ← insideLoop (statement levels)
      return .whileLoop test body
    | .forWord =>
      discard advance
      discard (expect .leftParen)
      let init ← assignment levels
      discard (expect .semicolon)
      let value ← expression levels
      let test ← check (checkTest value)
      discard (expect .semicolon)
      let increment ← assignment levels
      discard (expect .rightParen)
      let body ← insideLoop (statement levels)
      return .forLoop init test increment body
    | .ifWord =>
      discard advance
      let test ← condition levels
      let body ← statement levels
      -- The other branch belongs to the nearest conditional that has none yet.
      if (← kind) = .elseWord then
        discard advance
        let otherwise ← statement levels
        return .ifElse test body otherwise
      return .ifThen test body
    | _ =>
      let done ← assignment levels
      discard (expect .semicolon)
      return done

end Reading

end SmallC
