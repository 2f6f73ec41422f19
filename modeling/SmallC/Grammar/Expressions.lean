import SmallC.Grammar.Declarations

/-! Expressions: operators by precedence, and the levels of nesting that each may use. -/

namespace SmallC

/-- The precedences of the binary operators. -/
inductive Tier where
  /-- Disjunction. -/
  | disjunction
  /-- Conjunction. -/
  | conjunction
  /-- Equality and its opposite. -/
  | equality
  /-- The comparisons of order. -/
  | relational
  /-- Sums and differences. -/
  | additive
  /-- Products, quotients and remainders. -/
  | multiplicative
  deriving DecidableEq, Repr

namespace Tier

/-- The precedences from the loosest to the tightest. -/
def all : List Tier :=
  [.disjunction, .conjunction, .equality, .relational, .additive, .multiplicative]

/-- The typing rule of an operator of the precedence. -/
def rule? : Tier → TokenKind → Option (Expression → Expression → Verdict Expression)
  -- Each sign belongs to one precedence.
  | .disjunction, .orOr => some checkOr
  | .conjunction, .andAnd => some checkAnd
  | .equality, .comparison .equal => some (checkCompare .equal)
  | .equality, .comparison .notEqual => some (checkCompare .notEqual)
  | .relational, .comparison .less => some (checkCompare .less)
  | .relational, .comparison .greater => some (checkCompare .greater)
  | .relational, .comparison .lessEqual => some (checkCompare .lessEqual)
  | .relational, .comparison .greaterEqual => some (checkCompare .greaterEqual)
  | .additive, .plus => some checkAdd
  | .additive, .minus => some checkSubtract
  | .multiplicative, .star => some checkMultiply
  | .multiplicative, .slash => some checkDivide
  | .multiplicative, .percent => some checkRemainder
  | _, _ => none

end Tier

/-- The number of the character that a literal denotes. -/
def characterValue (literal : String) : UInt32 :=
  -- A literal without a character counts as zero.
  ((unescape literal).toList.head?.map Char.val).getD 0

namespace Reading

/-- Whether a type in parentheses starts at the token in hand. -/
def startsTypeName : Reading Bool := do
  -- One token more than the one in hand tells a type from an operand.
  let reader ← get
  return reader.current.kind = .leftParen && reader.rest.head?.any (·.kind.isSpecifier)

/-- Read a type in parentheses. -/
def typeName : Reading Ty := do
  discard (expect .leftParen)
  let specifier ← specifier
  let indirection ← stars
  discard (expect .rightParen)
  return .scalar specifier indirection

/-- Read the arguments of a call, up to the closing parenthesis. -/
def callArguments (argument : Reading Expression) : Reading (List Expression) := do
  if (← kind) = .rightParen then return [] else commaSeparated argument

mutual

/-- Read an expression, which takes one level. -/
def expression : (levels : Nat) → Reading Expression
  | 0 => tooDeep
  | levels + 1 => operation Tier.all levels
termination_by levels => (levels, 0)

/-- Read operands joined by operators of the first precedence given, or of a tighter one. -/
def operation : (tiers : List Tier) → (levels : Nat) → Reading Expression
  | [], levels => prefixed levels
  | tier :: tighter, levels => do
    let left ← operation tighter levels
    furtherOperands tier tighter left levels
termination_by tiers levels => (levels, tiers.length + 4)

/-- Read the operands that follow one on the left; each operator takes one level. -/
def furtherOperands (tier : Tier) (tighter : List Tier) (left : Expression) (levels : Nat) :
    Reading Expression := do
  -- Every operator of the chain takes a level, which the end of the chain gives back.
  match tier.rule? (← kind) with
  | none => return left
  | some rule =>
    match levels with
    | 0 => tooDeep
    | levels + 1 =>
      discard advance
      let right ← operation tighter levels
      let left ← check (rule left right)
      furtherOperands tier tighter left levels
termination_by (levels, 0)

/-- Read an operand with the operators before it, which takes one level. -/
def prefixed : (levels : Nat) → Reading Expression
  | 0 => tooDeep
  | levels + 1 => do
    -- A type in parentheses is a cast, and after the word for sizes always the operand.
    let typed ← startsTypeName
    match ← kind with
    | .bang => discard advance; check (checkNot (← prefixed levels))
    | .minus => discard advance; check (checkNegate (← prefixed levels))
    | .star => discard advance; check (checkDereference (← prefixed levels))
    | .ampersand => discard advance; check (checkAddress (← prefixed levels))
    | .sizeofWord =>
      discard advance
      if ← startsTypeName then return sizeofType (← typeName)
      check (checkSizeof (← prefixed levels))
    | .leftParen =>
      if typed then
        let target ← typeName
        check (checkCast target (← prefixed levels))
      else suffixed levels
    | _ => suffixed levels
termination_by levels => (levels, 3)

/-- Read an operand with the operators after it. -/
def suffixed (levels : Nat) : Reading Expression := do
  let operand ← primary levels
  furtherSuffixes operand levels
termination_by (levels, 2)

/-- Read the operators that follow an operand; each takes one level. -/
def furtherSuffixes (operand : Expression) (levels : Nat) : Reading Expression := do
  match ← kind with
  | .leftBracket =>
    match levels with
    | 0 => tooDeep
    | levels + 1 =>
      discard advance
      let index ← expression levels
      -- The subscript is judged before its closing bracket is looked at.
      let operand ← check (checkSubscript operand index)
      discard (expect .rightBracket)
      furtherSuffixes operand levels
  | .increment =>
    match levels with
    | 0 => tooDeep
    | levels + 1 =>
      let operand ← check (checkStep .increment operand)
      discard advance
      furtherSuffixes operand levels
  | .decrement =>
    match levels with
    | 0 => tooDeep
    | levels + 1 =>
      let operand ← check (checkStep .decrement operand)
      discard advance
      furtherSuffixes operand levels
  | _ => return operand
termination_by (levels, 0)

/-- Read an operand without operators. -/
def primary (levels : Nat) : Reading Expression := do
  match ← kind with
  | .leftParen =>
    discard advance
    let inner ← expression levels
    discard (expect .rightParen)
    return inner
  | .character => return .int (characterValue (← advance).text)
  | .string => return .string (unescape (← advance).text)
  | .integer => return .int (UInt32.ofNat (← wholeNumber))
  | .real => return .real (← advance).text
  | .identifier =>
    let symbol ← act (Checker.resolve (← name))
    if (← kind) = .leftParen then
      discard advance
      let arguments ← callArguments (expression levels)
      let call ← act (Checker.call symbol arguments)
      discard (expect .rightParen)
      return call
    return (← get).checker.identifier symbol
  | _ => unexpected
termination_by (levels, 1)

end

end Reading

end SmallC
