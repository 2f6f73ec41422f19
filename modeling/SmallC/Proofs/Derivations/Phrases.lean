import SmallC.Grammar.Expressions

/-! Phrases: the grammar of expressions over tokens, and what checking makes of a derivation. -/

namespace SmallC

/-- A step of checking. -/
abbrev Checking := StateM Checker

/-- Operators that stand before their operand. -/
inductive UnarySign where
  /-- Tests for zero. -/
  | not
  /-- The opposite number. -/
  | negate
  /-- Follows a pointer. -/
  | dereference
  /-- The address of storage. -/
  | address
  /-- The size of a value's type. -/
  | sizeof
  /-- Converts to a type. -/
  | cast (target : Ty)

namespace UnarySign

/-- The kind of the one token of an operator; a cast is spelled as its type in parentheses. -/
def kind? : UnarySign → Option TokenKind
  | .not => some .bang
  | .negate => some .minus
  | .dereference => some .star
  | .address => some .ampersand
  | .sizeof => some .sizeofWord
  | .cast _ => none

/-- The check of an operator. -/
def check : UnarySign → Expression → Verdict Expression
  | .not => checkNot
  | .negate => checkNegate
  | .dereference => checkDereference
  | .address => checkAddress
  | .sizeof => checkSizeof
  | .cast target => checkCast target

end UnarySign

/-- Operators that stand between their operands. -/
inductive BinarySign where
  /-- Disjunction. -/
  | or
  /-- Conjunction. -/
  | and
  /-- One of the six comparisons. -/
  | compare (relation : Comparison)
  /-- The sum. -/
  | plus
  /-- The difference. -/
  | minus
  /-- The product. -/
  | times
  /-- The quotient. -/
  | over
  /-- The remainder. -/
  | modulo

namespace BinarySign

/-- The kind of the token of an operator. -/
def kind : BinarySign → TokenKind
  | .or => .orOr
  | .and => .andAnd
  | .compare relation => .comparison relation
  | .plus => .plus
  | .minus => .minus
  | .times => .star
  | .over => .slash
  | .modulo => .percent

/-- The precedence of an operator. -/
def tier : BinarySign → Tier
  | .or => .disjunction
  | .and => .conjunction
  -- Comparisons of order bind tighter than those of equality.
  | .compare .equal | .compare .notEqual => .equality
  | .compare _ => .relational
  | .plus | .minus => .additive
  | .times | .over | .modulo => .multiplicative

/-- The check of an operator. -/
def check : BinarySign → Expression → Expression → Verdict Expression
  | .or => checkOr
  | .and => checkAnd
  | .compare relation => checkCompare relation
  | .plus => checkAdd
  | .minus => checkSubtract
  | .times => checkMultiply
  | .over => checkDivide
  | .modulo => checkRemainder

/-- A precedence judges exactly the operators that are placed in it. -/
theorem rule_eq_some {tier : Tier} {kind : TokenKind}
    {rule : Expression → Expression → Verdict Expression} :
    tier.rule? kind = some rule ↔
      ∃ sign : BinarySign, sign.kind = kind ∧ sign.tier = tier ∧ sign.check = rule := by
  constructor
  -- Each token with a rule is that of one sign, in the order of the precedences.
  · intro found
    unfold Tier.rule? at found
    split at found <;> cases found
    · exact ⟨.or, rfl, rfl, rfl⟩
    · exact ⟨.and, rfl, rfl, rfl⟩
    · exact ⟨.compare .equal, rfl, rfl, rfl⟩
    · exact ⟨.compare .notEqual, rfl, rfl, rfl⟩
    · exact ⟨.compare .less, rfl, rfl, rfl⟩
    · exact ⟨.compare .greater, rfl, rfl, rfl⟩
    · exact ⟨.compare .lessEqual, rfl, rfl, rfl⟩
    · exact ⟨.compare .greaterEqual, rfl, rfl, rfl⟩
    · exact ⟨.plus, rfl, rfl, rfl⟩
    · exact ⟨.minus, rfl, rfl, rfl⟩
    · exact ⟨.times, rfl, rfl, rfl⟩
    · exact ⟨.over, rfl, rfl, rfl⟩
    · exact ⟨.modulo, rfl, rfl, rfl⟩
  · rintro ⟨sign, rfl, rfl, rfl⟩
    rcases sign with _ | _ | relation | _
    case compare => cases relation <;> rfl
    all_goals rfl

end BinarySign

/-- The kind of the token of a step. -/
def StepOp.kind : StepOp → TokenKind
  | .increment => .increment
  | .decrement => .decrement

/-- What a run of tokens says as an expression, before anything is checked. -/
inductive Phrase where
  /-- A constant. -/
  | literal (value : Expression)
  /-- A name. -/
  | name (spelling : String)
  /-- A call of a name. -/
  | call (callee : String) (arguments : List Phrase)
  /-- An operator before its operand. -/
  | unary (sign : UnarySign) (operand : Phrase)
  /-- The size of a type that is written out. -/
  | sizeofType (type : Ty)
  /-- A subscript. -/
  | subscript (array index : Phrase)
  /-- A step after its operand. -/
  | step (op : StepOp) (operand : Phrase)
  /-- An operator between its operands. -/
  | binary (sign : BinarySign) (left right : Phrase)

namespace Phrase

mutual

/-- Check a phrase from left to right, every operator after its operands. -/
def elaborate : Phrase → Checking Expression
  | .literal value => return value
  | .name spelling => do
    let symbol ← Checker.resolve spelling
    return (← get).identifier symbol
  | .call callee arguments => do
    -- The callee is looked up before its arguments are.
    let symbol ← Checker.resolve callee
    let arguments ← elaborateAll arguments
    Checker.call symbol arguments
  | .unary sign operand => do Checker.record (sign.check (← elaborate operand))
  | .sizeofType type => return SmallC.sizeofType type
  | .subscript array index => do
    let array ← elaborate array
    let index ← elaborate index
    Checker.record (checkSubscript array index)
  | .step op operand => do Checker.record (checkStep op (← elaborate operand))
  | .binary sign left right => do
    let left ← elaborate left
    let right ← elaborate right
    Checker.record (sign.check left right)

/-- Check phrases in order. -/
def elaborateAll : List Phrase → Checking (List Expression)
  | [] => return []
  | first :: rest => do
    let first ← elaborate first
    let rest ← elaborateAll rest
    return first :: rest

end

end Phrase

/-! A grammar relates the tokens before something, what it is, and the tokens after it. -/

/-- The kind of the first token, the source having ended where there is none. -/
def ahead (tokens : List Token) : TokenKind :=
  (tokens.head?.map Token.kind).getD .done

@[simp] theorem ahead_cons (token : Token) (rest : List Token) : ahead (token :: rest) = token.kind :=
  rfl

section Combinators

variable {α : Type} (item : List Token → α → List Token → Prop)

/-- Items one after the other. -/
inductive Run : List Token → List α → List Token → Prop where
  /-- No item. -/
  | nil (rest : List Token) : Run rest [] rest
  /-- An item before others. -/
  | cons {start middle rest : List Token} {first : α} {others : List α}
    (head : item start first middle) (tail : Run middle others rest) :
    Run start (first :: others) rest

/-- At least one item, with commas between items. -/
inductive Commas : List Token → List α → List Token → Prop where
  /-- A single item. -/
  | one {start rest : List Token} {only : α} (head : item start only rest) :
    Commas start [only] rest
  /-- An item before a comma and others. -/
  | more {start middle rest : List Token} {first : α} {others : List α} {comma : Token}
    (head : item start first (comma :: middle)) (separated : comma.kind = .comma)
    (tail : Commas middle others rest) : Commas start (first :: others) rest

/-- An item after a comma. -/
def AfterComma (start : List Token) (thing : α) (rest : List Token) : Prop :=
  ∃ comma middle, start = comma :: middle ∧ comma.kind = .comma ∧ item middle thing rest

/-- Items between commas are an item and a run of those that have a comma before them. -/
theorem commas_iff {start rest : List Token} {things : List α} :
    Commas item start things rest ↔ ∃ first others middle, things = first :: others ∧
      item start first middle ∧ Run (AfterComma item) middle others rest := by
  constructor
  · intro listed
    induction listed with
    | one head => exact ⟨_, _, _, rfl, head, .nil _⟩
    | more head separated tail ih =>
      obtain ⟨second, others, middle, rfl, inner, run⟩ := ih
      exact ⟨_, _, _, rfl, head, .cons ⟨_, _, rfl, separated, inner⟩ run⟩
  · rintro ⟨first, others, middle, rfl, head, run⟩
    -- The first item moves on with the run, since commas are counted from the left.
    induction run generalizing start first with
    | nil => exact .one head
    | cons second tail ih =>
      obtain ⟨comma, middle, rfl, separated, inner⟩ := second
      exact .more head separated (ih _ inner)

end Combinators

/-- Stars, which are counted. -/
inductive Stars : List Token → Nat → List Token → Prop where
  /-- No star. -/
  | none (rest : List Token) : Stars rest 0 rest
  /-- A star before others. -/
  | more {star : Token} {start rest : List Token} {count : Nat} (starred : star.kind = .star)
    (others : Stars start count rest) : Stars (star :: start) (count + 1) rest

/-- A star by itself. -/
def Starred (start : List Token) (star : Token) (rest : List Token) : Prop :=
  start = star :: rest ∧ star.kind = .star

/-- The count of stars is the length of a run of them. -/
theorem stars_iff {start rest : List Token} {count : Nat} :
    Stars start count rest ↔ ∃ found, found.length = count ∧ Run Starred start found rest := by
  constructor
  · intro stars
    induction stars with
    | none => exact ⟨[], rfl, .nil _⟩
    | @more star start rest count starred others ih =>
      obtain ⟨found, rfl, run⟩ := ih
      exact ⟨star :: found, rfl, .cons ⟨rfl, starred⟩ run⟩
  · rintro ⟨found, rfl, run⟩
    induction run with
    | nil => exact .none _
    | cons head tail ih =>
      obtain ⟨rfl, starred⟩ := head
      exact .more starred ih

/-- A specifier and stars in parentheses. -/
inductive TypeName : List Token → Ty → List Token → Prop where
  /-- The scalar type that they denote. -/
  | scalar {opening word closing : Token} {start rest : List Token} {specifier : Specifier}
    {indirection : Nat} (opens : opening.kind = .leftParen)
    (specified : word.kind = .specifier specifier)
    (stars : Stars start indirection (closing :: rest)) (closes : closing.kind = .rightParen) :
    TypeName (opening :: word :: start) (.scalar specifier indirection) rest

/-- Whether the tokens start with a type in parentheses. -/
def opensType : List Token → Bool
  | opening :: word :: _ => opening.kind = .leftParen && word.kind.isSpecifier
  | _ => false

/-- The constant that a token is spelled for. -/
inductive Constant : Token → Expression → Prop where
  /-- A quoted character. -/
  | character {token : Token} (spelled : token.kind = .character) :
    Constant token (.int (characterValue token.text))
  /-- A quoted text. -/
  | string {token : Token} (spelled : token.kind = .string) :
    Constant token (.string (unescape token.text))
  /-- A whole number that fits an unsigned word. -/
  | integer {token : Token} {value : Nat} (spelled : token.kind = .integer)
    (fits : decimalBelow? UInt32.size token.text = some value) :
    Constant token (.int (UInt32.ofNat value))
  /-- A number with a fraction or an exponent. -/
  | real {token : Token} (spelled : token.kind = .real) : Constant token (.real token.text)

/-- The nonterminals of expressions, from the loosest to the tightest. -/
inductive Rung where
  /-- Operands joined by operators of the given precedences, the loosest first. -/
  | operation (tiers : List Tier)
  /-- An operand with the operators before it. -/
  | prefixed
  /-- An operand with the operators after it. -/
  | suffixed
  /-- An operand without operators. -/
  | primary

/-- Any expression. -/
abbrev Rung.expression : Rung := .operation Tier.all

/-- The grammar of expressions: the phrase that stands between two points of a unit. -/
inductive Phrase.Derives : Rung → List Token → Phrase → List Token → Prop where
  /-- An operator of the loosest precedence, whose left operand may hold operators like it. -/
  | binary {tier : Tier} {tighter : List Tier} {start middle rest : List Token}
    {left right : Phrase} {sign : BinarySign} {operator : Token}
    (first : Derives (.operation (tier :: tighter)) start left (operator :: middle))
    (spelled : operator.kind = sign.kind) (placed : sign.tier = tier)
    (second : Derives (.operation tighter) middle right rest) :
    Derives (.operation (tier :: tighter)) start (.binary sign left right) rest
  /-- Operands joined by tighter operators only. -/
  | tighter {tier : Tier} {tighter : List Tier} {start rest : List Token} {phrase : Phrase}
    (inner : Derives (.operation tighter) start phrase rest) :
    Derives (.operation (tier :: tighter)) start phrase rest
  /-- An operand without binary operators. -/
  | operand {start rest : List Token} {phrase : Phrase} (inner : Derives .prefixed start phrase rest) :
    Derives (.operation []) start phrase rest
  /-- An operator before an operand; after the word for sizes, a type in parentheses is none. -/
  | unary {sign : UnarySign} {operator : Token} {start rest : List Token} {operand : Phrase}
    (spelled : sign.kind? = some operator.kind)
    (sized : operator.kind = .sizeofWord → opensType start = false)
    (inner : Derives .prefixed start operand rest) :
    Derives .prefixed (operator :: start) (.unary sign operand) rest
  /-- The size of a type. -/
  | sizeofType {word : Token} {start rest : List Token} {type : Ty}
    (spelled : word.kind = .sizeofWord) (named : TypeName start type rest) :
    Derives .prefixed (word :: start) (.sizeofType type) rest
  /-- A type in parentheses before an operand. -/
  | cast {start middle rest : List Token} {type : Ty} {operand : Phrase}
    (named : TypeName start type middle) (inner : Derives .prefixed middle operand rest) :
    Derives .prefixed start (.unary (.cast type) operand) rest
  /-- An operand without operators before it. -/
  | suffixed {start rest : List Token} {phrase : Phrase}
    (inner : Derives .suffixed start phrase rest) : Derives .prefixed start phrase rest
  /-- A subscript after an operand, which may have suffixes of its own. -/
  | subscript {opening closing : Token} {start middle rest : List Token} {array index : Phrase}
    (first : Derives .suffixed start array (opening :: middle))
    (opens : opening.kind = .leftBracket)
    (second : Derives .expression middle index (closing :: rest))
    (closes : closing.kind = .rightBracket) :
    Derives .suffixed start (.subscript array index) rest
  /-- A step after an operand, which may have suffixes of its own. -/
  | step {op : StepOp} {sign : Token} {start rest : List Token} {operand : Phrase}
    (first : Derives .suffixed start operand (sign :: rest)) (spelled : sign.kind = op.kind) :
    Derives .suffixed start (.step op operand) rest
  /-- An operand without operators after it. -/
  | primary {start rest : List Token} {phrase : Phrase}
    (inner : Derives .primary start phrase rest) : Derives .suffixed start phrase rest
  /-- An expression in parentheses. -/
  | parenthesised {opening closing : Token} {start rest : List Token} {phrase : Phrase}
    (opens : opening.kind = .leftParen) (inner : Derives .expression start phrase (closing :: rest))
    (closes : closing.kind = .rightParen) : Derives .primary (opening :: start) phrase rest
  /-- A constant. -/
  | literal {token : Token} {rest : List Token} {value : Expression}
    (constant : Constant token value) : Derives .primary (token :: rest) (.literal value) rest
  /-- A name. -/
  | name {token : Token} {rest : List Token} (spelled : token.kind = .identifier) :
    Derives .primary (token :: rest) (.name token.text) rest
  /-- A call without arguments. -/
  | callNothing {token opening closing : Token} {rest : List Token}
    (spelled : token.kind = .identifier) (opens : opening.kind = .leftParen)
    (closes : closing.kind = .rightParen) :
    Derives .primary (token :: opening :: closing :: rest) (.call token.text []) rest
  /-- A call with arguments. -/
  | call {token opening closing : Token} {start rest : List Token} {arguments : List Phrase}
    (spelled : token.kind = .identifier) (opens : opening.kind = .leftParen)
    (passed : Commas (Derives .expression) start arguments (closing :: rest))
    (closes : closing.kind = .rightParen) :
    Derives .primary (token :: opening :: start) (.call token.text arguments) rest

end SmallC
