import SmallC.Check.Checker
import SmallC.Source.Decimal
import SmallC.Source.Failure

/-! Reading tokens: the one in hand, those that follow, and the checker that hears of them. -/

namespace SmallC

/-- How far a unit has been read. -/
structure Reader where
  /-- The token in hand. -/
  current : Token
  /-- The tokens that follow it. -/
  rest : List Token
  /-- What has been declared and reported so far. -/
  checker : Checker
  /-- How deep statements and expressions may nest. -/
  limit : Nat

/-- A step of reading, which may fail and leaves the reader where it stopped. -/
abbrev Reading := EStateM Failure Reader

namespace Reader

/-- The token after the one in hand; past the last one the source has ended. -/
def next (reader : Reader) : Token :=
  reader.rest.head?.getD (.atEnd reader.current.position)

/-- The reader with the next token in hand, where later reports are put. -/
def step (reader : Reader) : Reader :=
  { reader with
    current := reader.next, rest := reader.rest.tail
    checker := reader.checker.moveTo reader.next.position }

/-- The reader before the given tokens. -/
def before (tokens : List Token) (limit : Nat) (checker : Checker) : Reader :=
  -- A text without tokens has ended where it starts.
  step ⟨.atEnd .start, tokens, checker, limit⟩

/-- The token in hand and those that follow. -/
def remaining (reader : Reader) : List Token :=
  reader.current :: reader.rest

end Reader

namespace Reading

/-- The kind of the token in hand. -/
def kind : Reading TokenKind :=
  return (← get).current.kind

/-- Take the token in hand. -/
def advance : Reading Token :=
  modifyGet fun reader => (reader.current, reader.step)

/-- Fail because the token in hand has no place here. -/
def unexpected {α : Type} : Reading α := do
  let token := (← get).current
  throw (.unexpectedToken token.position.line token.shown)

/-- Fail because no level of nesting is left. -/
def tooDeep {α : Type} : Reading α := do
  let reader ← get
  throw (.tooDeep reader.current.position.line reader.limit)

/-- Take a token of the given kind. -/
def expect (wanted : TokenKind) : Reading Token := do
  if (← kind) = wanted then advance else unexpected

/-- Let the checker act. -/
def act {α : Type} (action : Checker → α × Checker) : Reading α :=
  -- The checker never touches the tokens, so it cannot change what is read.
  modifyGet fun reader =>
    let done := action reader.checker
    (done.1, { reader with checker := done.2 })

/-- Change the checker. -/
def adjust (change : Checker → Checker) : Reading Unit :=
  act fun checker => ((), change checker)

/-- Keep the node of a verdict and report its problem. -/
def check {α : Type} (verdict : Verdict α) : Reading α :=
  act (Checker.record verdict)

/-- Read items while the token in hand passes the test, each item taking a token of the clock. -/
def whileAt {α : Type} (test : TokenKind → Bool) (item : Reading α) :
    (clock : List Token) → Reading (List α)
  -- A clock of all remaining tokens never runs out, because no item is empty.
  | [] => do if test (← kind) then unexpected else return []
  | _ :: clock => do
    if test (← kind) then
      let first ← item
      let others ← whileAt test item clock
      return first :: others
    else return []

/-- Read items while the token in hand passes the test. -/
def many {α : Type} (test : TokenKind → Bool) (item : Reading α) : Reading (List α) := do
  whileAt test item (← get).remaining

/-- Read one item and further ones after commas. -/
def commaSeparated {α : Type} (item : Reading α) : Reading (List α) := do
  let first ← item
  let others ← many (· = .comma) (do discard advance; item)
  return first :: others

/-- Read the body of a loop, which ends however the reading does. -/
def insideLoop {α : Type} (body : Reading α) : Reading α := fun reader =>
  -- The count of open loops is put back also when the body cannot be read.
  match body { reader with checker := reader.checker.enterLoop } with
  | .ok value reader => .ok value { reader with checker := reader.checker.leaveLoop }
  | .error failure reader => .error failure { reader with checker := reader.checker.leaveLoop }

/-- Read a name. -/
def name : Reading String :=
  return (← expect .identifier).text

/-- Read a whole number that fits an unsigned word. -/
def wholeNumber : Reading Nat := do
  let token ← expect .integer
  match decimalBelow? UInt32.size token.text with
  | some value => return value
  | none => throw (.integerRange token.position.line token.text)

end Reading

end SmallC
