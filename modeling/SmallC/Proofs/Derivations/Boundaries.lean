import SmallC.Proofs.Derivations.Units

/-! Where phrases begin and how they go on: each takes a token that few others start with, and what
groups to the left is an operand with a chain of operators after it. -/

namespace SmallC

/-! Something of the grammar takes at least one token, except where nothing is a choice. -/

theorem Run.shorter {α : Type} {item : List Token → α → List Token → Prop}
    (each : ∀ start thing rest, item start thing rest → rest.length < start.length)
    {start rest : List Token} {things : List α} (run : Run item start things rest) :
    rest.length ≤ start.length := by
  induction run with
  | nil => exact Nat.le_refl _
  | cons head tail ih =>
    have first := each _ _ _ head
    omega

theorem Commas.shorter {α : Type} {item : List Token → α → List Token → Prop}
    (each : ∀ start thing rest, item start thing rest → rest.length < start.length)
    {start rest : List Token} {things : List α} (listed : Commas item start things rest) :
    rest.length < start.length := by
  induction listed with
  | one head => exact each _ _ _ head
  | more head separated tail ih =>
    have first := each _ _ _ head
    simp only [List.length_cons] at first
    omega

theorem AfterComma.shorter {α : Type} {item : List Token → α → List Token → Prop}
    (each : ∀ start thing rest, item start thing rest → rest.length < start.length)
    {start rest : List Token} {thing : α} (derived : AfterComma item start thing rest) :
    rest.length < start.length := by
  obtain ⟨comma, middle, rfl, _, derived⟩ := derived
  exact Nat.lt_succ_of_lt (each _ _ _ derived)

theorem Stars.shorter {start rest : List Token} {count : Nat} (stars : Stars start count rest) :
    rest.length ≤ start.length := by
  induction stars with
  | none => exact Nat.le_refl _
  | more starred others ih =>
    simp only [List.length_cons]
    omega

theorem TypeName.shorter {start rest : List Token} {type : Ty} (named : TypeName start type rest) :
    rest.length < start.length := by
  obtain ⟨_, _, stars, _⟩ := named
  have inside := stars.shorter
  simp only [List.length_cons] at inside ⊢
  omega

/-- A type in parentheses starts as one. -/
theorem TypeName.opensType {start rest : List Token} {type : Ty} (named : TypeName start type rest) :
    ahead start = .leftParen ∧ opensType start = true := by
  obtain ⟨opens, specified, _, _⟩ := named
  simp [SmallC.opensType, opens, specified, TokenKind.isSpecifier]

namespace Phrase

mutual

theorem Derives.shorter {rung : Rung} {start rest : List Token} {phrase : Phrase} :
    Derives rung start phrase rest → rest.length < start.length
  | .binary first _ _ second => by
    have left := first.shorter
    have right := second.shorter
    simp only [List.length_cons] at left
    omega
  | .tighter inner | .operand inner | .suffixed inner | .primary inner => inner.shorter
  | .unary _ _ inner => Nat.lt_succ_of_lt inner.shorter
  | .sizeofType _ named => Nat.lt_succ_of_lt named.shorter
  | .cast named inner => Nat.lt_trans inner.shorter named.shorter
  | .subscript first _ second _ => by
    have left := first.shorter
    have right := second.shorter
    simp only [List.length_cons] at left right
    omega
  | .step first _ => Nat.lt_trans (Nat.lt_succ_self _) first.shorter
  | .parenthesised _ inner _ => by
    have inside := inner.shorter
    simp only [List.length_cons] at inside ⊢
    omega
  | .literal _ | .name _ => Nat.lt_succ_self _
  | .callNothing _ _ _ => by
    simp only [List.length_cons]
    omega
  | .call _ _ passed _ => by
    have inside := Derives.shorter_commas passed
    simp only [List.length_cons] at inside ⊢
    omega

theorem Derives.shorter_commas {start rest : List Token} {phrases : List Phrase} :
    Commas (Derives .expression) start phrases rest → rest.length < start.length
  | .one head => head.shorter
  | .more head _ tail => by
    have first := head.shorter
    have others := Derives.shorter_commas tail
    simp only [List.length_cons] at first
    omega

end

end Phrase

/-! What follows something of the grammar decides whether it has been read to its end. -/

section Combinators

variable {α : Type} {item : List Token → α → List Token → Prop}

theorem Run.mono {narrow wide : List Token → α → List Token → Prop}
    (implies : ∀ start thing rest, narrow start thing rest → wide start thing rest)
    {start rest : List Token} {things : List α} (run : Run narrow start things rest) :
    Run wide start things rest := by
  induction run with
  | nil => exact .nil _
  | cons head tail ih => exact .cons (implies _ _ _ head) ih

/-- Items one after the other, each followed by something that passes a test of its own. -/
theorem Run.follow (fits : TokenKind → Prop)
    (starts : ∀ start thing rest, item start thing rest → fits (ahead start))
    {start rest : List Token} {things : List α} (run : Run item start things rest)
    (last : fits (ahead rest)) :
    Run (fun start thing rest => item start thing rest ∧ fits (ahead rest)) start things rest := by
  induction run with
  | nil => exact .nil _
  | @cons start middle rest first others head tail ih =>
    -- After the first item comes the second one, or what comes last.
    have between : fits (ahead middle) := by
      cases tail with
      | nil => exact last
      | cons second _ => exact starts _ _ _ second
    exact .cons ⟨head, between⟩ (ih last)

theorem Commas.follow (fits : TokenKind → Prop) (separator : fits .comma)
    {start rest : List Token} {things : List α} (listed : Commas item start things rest)
    (last : fits (ahead rest)) :
    Commas (fun start thing rest => item start thing rest ∧ fits (ahead rest)) start things rest := by
  induction listed with
  | one head => exact .one ⟨head, last⟩
  | more head separated tail ih =>
    exact .more ⟨head, by rwa [ahead_cons, separated]⟩ separated (ih last)

end Combinators

/-- Whether something of the rung could go on with the token. -/
def Rung.goesOn : Rung → TokenKind → Bool
  | .primary, kind => kind = .leftParen
  | .suffixed, kind | .prefixed, kind => kind ∈ [.leftParen, .leftBracket, .increment, .decrement]
  | .operation tiers, kind => kind ∈ [.leftParen, .leftBracket, .increment, .decrement] ||
      tiers.any fun tier => (tier.rule? kind).isSome

theorem BinarySign.kind_injective {left right : BinarySign} (same : left.kind = right.kind) :
    left = right := by
  cases left <;> cases right <;> simp_all [kind]

/-- An operator of another precedence ends an operand. -/
theorem BinarySign.not_goesOn {sign : BinarySign} {tiers : List Tier} (absent : sign.tier ∉ tiers) :
    (Rung.operation tiers).goesOn sign.kind = false := by
  -- The tokens that go on after any operand are no operators between two.
  have plain : sign.kind ∉ [.leftParen, .leftBracket, .increment, .decrement] := by
    cases sign <;> simp [kind]
  simp only [Rung.goesOn, plain, decide_false, Bool.false_or, List.any_eq_false]
  intro tier member found
  obtain ⟨rule, ruled⟩ := Option.isSome_iff_exists.mp found
  obtain ⟨other, same, placed, _⟩ := rule_eq_some.mp ruled
  rw [kind_injective same] at placed
  exact absent (placed ▸ member)

/-- What ends operands of a precedence and of tighter ones is no operator of it. -/
theorem Rung.rule_of_not_goesOn {tier : Tier} {tighter : List Tier} {kind : TokenKind}
    (ends : (Rung.operation (tier :: tighter)).goesOn kind = false) : tier.rule? kind = none := by
  simp only [goesOn, List.any_cons, Bool.or_eq_false_iff, Option.isSome_eq_false_iff,
    Option.isNone_iff_eq_none] at ends
  exact ends.2.1

/-- An expression ends where no operator of any precedence follows. -/
theorem not_goesOn_expression {kind : TokenKind}
    (ends : kind ∈ [.rightParen, .rightBracket, .comma, .semicolon, .assign]) :
    Rung.expression.goesOn kind = false := by
  simp only [List.mem_cons, List.not_mem_nil, or_false] at ends
  rcases ends with rfl | rfl | rfl | rfl | rfl <;> rfl

/-- Whether an operand without operators before it starts with the token. -/
def TokenKind.opensOperand : TokenKind → Bool
  | .leftParen | .character | .string | .integer | .real | .identifier => true
  | _ => false

/-- Whether an expression starts with the token. -/
def TokenKind.opensPhrase : TokenKind → Bool
  | .bang | .minus | .star | .ampersand | .sizeofWord => true
  | kind => kind.opensOperand

/-- Whether something of the rung starts with the token. -/
def Rung.opens : Rung → TokenKind → Bool
  | .suffixed | .primary => TokenKind.opensOperand
  | _ => TokenKind.opensPhrase

theorem TokenKind.opensPhrase_of_operand {kind : TokenKind} (opens : kind.opensOperand = true) :
    kind.opensPhrase = true := by
  cases kind <;> simp_all [opensPhrase, opensOperand]

theorem UnarySign.opensPhrase {sign : UnarySign} {kind : TokenKind}
    (spelled : sign.kind? = some kind) : kind.opensPhrase = true := by
  cases sign <;> simp only [kind?, Option.some.injEq, reduceCtorEq] at spelled <;>
    subst spelled <;> rfl

theorem Constant.opensOperand {token : Token} {value : Expression}
    (constant : Constant token value) : token.kind.opensOperand = true := by
  cases constant with
  | character spelled | string spelled | integer spelled | real spelled => rw [spelled]; rfl

namespace Phrase

theorem Derives.opens {rung : Rung} {start rest : List Token} {phrase : Phrase} :
    Derives rung start phrase rest → rung.opens (ahead start) = true
  | .binary first _ _ _ | .subscript first _ _ _ | .step first _ => first.opens
  | .tighter inner | .operand inner => inner.opens
  | .unary spelled _ _ => UnarySign.opensPhrase spelled
  | .sizeofType spelled _ => congrArg TokenKind.opensPhrase spelled
  | .cast (.scalar opens _ _ _) _ => congrArg TokenKind.opensPhrase opens
  | .suffixed inner => TokenKind.opensPhrase_of_operand inner.opens
  | .primary inner => inner.opens
  | .parenthesised opens _ _ => congrArg TokenKind.opensOperand opens
  | .literal constant => constant.opensOperand
  | .name spelled | .callNothing spelled _ _ | .call spelled _ _ _ =>
    congrArg TokenKind.opensOperand spelled

theorem opens_commas {start rest : List Token} {phrases : List Phrase}
    (listed : Commas (Derives .expression) start phrases rest) :
    (ahead start).opensPhrase = true := by
  cases listed with
  | one head | more head _ _ => exact head.opens

theorem opensType_of_ne {tokens : List Token} (plain : ahead tokens ≠ .leftParen) :
    opensType tokens = false := by
  obtain _ | ⟨token, _ | ⟨word, rest⟩⟩ := tokens
  · rfl
  · rfl
  · simp only [opensType, Bool.and_eq_false_iff, decide_eq_false_iff_not]
    exact .inl plain

/-- What an operand without operators before it starts with is no type. -/
theorem Derives.opensType {start rest : List Token} {phrase : Phrase} :
    Derives .primary start phrase rest → opensType start = false
  | @Derives.parenthesised _ _ start _ _ _ inner _ => by
    obtain _ | ⟨word, rest⟩ := start
    · rfl
    -- An expression does not start with a specifier.
    have opens := inner.opens
    simp only [SmallC.opensType, Bool.and_eq_false_iff]
    right
    cases found : word.kind
    case specifier => simp [Rung.opens, TokenKind.opensPhrase, TokenKind.opensOperand, found] at opens
    all_goals rfl
  | .literal constant => opensType_of_ne (by cases constant <;> simp [*])
  | .name spelled | .callNothing spelled _ _ | .call spelled _ _ _ =>
    opensType_of_ne (by simp [spelled])

/-! What groups to the left is an operand with what follows it one after the other. -/

/-- Operators of one precedence after an operand. -/
inductive Chain (tier : Tier) (tighter : List Tier) :
    Phrase → List Token → Phrase → List Token → Prop where
  /-- No operator. -/
  | done (phrase : Phrase) (rest : List Token) : Chain tier tighter phrase rest phrase rest
  /-- An operator and its right operand before others. -/
  | more {left right phrase : Phrase} {operator : Token} {middle further rest : List Token}
    {sign : BinarySign} (spelled : operator.kind = sign.kind) (placed : sign.tier = tier)
    (second : Derives (.operation tighter) middle right further)
    (others : Chain tier tighter (.binary sign left right) further phrase rest) :
    Chain tier tighter left (operator :: middle) phrase rest

theorem Chain.append {tier : Tier} {tighter : List Tier} {left middle right : Phrase}
    {start further rest : List Token} (first : Chain tier tighter left start middle further)
    (second : Chain tier tighter middle further right rest) :
    Chain tier tighter left start right rest := by
  induction first with
  | done => exact second
  | more spelled placed operand others ih => exact .more spelled placed operand (ih second)

theorem Chain.shorter {tier : Tier} {tighter : List Tier} {left phrase : Phrase}
    {start rest : List Token} (chain : Chain tier tighter left start phrase rest) :
    rest.length ≤ start.length := by
  induction chain with
  | done => exact Nat.le_refl _
  | more _ _ second _ ih =>
    have operand := second.shorter
    simp only [List.length_cons]
    omega

/-- What follows the first operand of a chain ends it. -/
theorem Chain.ends {tier : Tier} {tighter : List Tier} {left phrase : Phrase}
    {middle rest : List Token} (chain : Chain tier tighter left middle phrase rest)
    (apart : tier ∉ tighter) (ends : (Rung.operation (tier :: tighter)).goesOn (ahead rest) = false) :
    (Rung.operation tighter).goesOn (ahead middle) = false := by
  cases chain with
  | done =>
    simp only [Rung.goesOn, List.any_cons, Bool.or_eq_false_iff] at ends ⊢
    exact ⟨ends.1, ends.2.2⟩
  | more spelled placed _ _ =>
    rw [ahead_cons, spelled]
    exact BinarySign.not_goesOn (placed ▸ apart)

theorem Derives.chain {tier : Tier} {tighter : List Tier} {start rest : List Token} {phrase : Phrase} :
    Derives (.operation (tier :: tighter)) start phrase rest → ∃ left middle,
      Derives (.operation tighter) start left middle ∧ Chain tier tighter left middle phrase rest
  | .tighter inner => ⟨phrase, rest, inner, .done _ _⟩
  | .binary first spelled placed second => by
    obtain ⟨left, middle, operand, operators⟩ := first.chain
    exact ⟨left, middle, operand, operators.append (.more spelled placed second (.done _ _))⟩

/-- Suffixes after an operand. -/
inductive Suffixes : Phrase → List Token → Phrase → List Token → Prop where
  /-- No suffix. -/
  | done (phrase : Phrase) (rest : List Token) : Suffixes phrase rest phrase rest
  /-- A subscript before others. -/
  | subscript {array index phrase : Phrase} {opening closing : Token}
    {middle further rest : List Token} (opens : opening.kind = .leftBracket)
    (second : Derives .expression middle index (closing :: further))
    (closes : closing.kind = .rightBracket)
    (others : Suffixes (.subscript array index) further phrase rest) :
    Suffixes array (opening :: middle) phrase rest
  /-- A step before others. -/
  | step {op : StepOp} {operand phrase : Phrase} {sign : Token} {further rest : List Token}
    (spelled : sign.kind = op.kind) (others : Suffixes (.step op operand) further phrase rest) :
    Suffixes operand (sign :: further) phrase rest

theorem Suffixes.append {left middle right : Phrase} {start further rest : List Token}
    (first : Suffixes left start middle further) (second : Suffixes middle further right rest) :
    Suffixes left start right rest := by
  induction first with
  | done => exact second
  | subscript opens index closes others ih => exact .subscript opens index closes (ih second)
  | step spelled others ih => exact .step spelled (ih second)

theorem Suffixes.shorter {operand phrase : Phrase} {start rest : List Token}
    (suffixes : Suffixes operand start phrase rest) : rest.length ≤ start.length := by
  induction suffixes with
  | done => exact Nat.le_refl _
  | subscript _ second _ _ ih =>
    have index := second.shorter
    simp only [List.length_cons] at index ⊢
    omega
  | step _ _ ih => exact Nat.le_succ_of_le ih

/-- A suffix is not the parenthesis of a call. -/
theorem Suffixes.ends {operand phrase : Phrase} {middle rest : List Token}
    (suffixes : Suffixes operand middle phrase rest)
    (ends : Rung.suffixed.goesOn (ahead rest) = false) :
    Rung.primary.goesOn (ahead middle) = false := by
  cases suffixes with
  | done =>
    simp only [Rung.goesOn, decide_eq_false_iff_not, List.mem_cons, not_or] at ends ⊢
    exact ends.1
  | subscript opens _ _ _ => simp [Rung.goesOn, opens]
  | @step op _ _ _ _ _ spelled _ => cases op <;> simp [Rung.goesOn, spelled, StepOp.kind]

theorem Derives.suffixes {start rest : List Token} {phrase : Phrase} :
    Derives .suffixed start phrase rest → ∃ operand middle,
      Derives .primary start operand middle ∧ Suffixes operand middle phrase rest
  | .primary inner => ⟨phrase, rest, inner, .done _ _⟩
  | .subscript first opens second closes => by
    obtain ⟨operand, middle, inner, others⟩ := first.suffixes
    exact ⟨operand, middle, inner, others.append (.subscript opens second closes (.done _ _))⟩
  | .step first spelled => by
    obtain ⟨operand, middle, inner, others⟩ := first.suffixes
    exact ⟨operand, middle, inner, others.append (.step spelled (.done _ _))⟩

/-- Something of the rung that does not go on. -/
def Whole (rung : Rung) (start : List Token) (phrase : Phrase) (rest : List Token) : Prop :=
  Derives rung start phrase rest ∧ rung.goesOn (ahead rest) = false

end Phrase

/-! Declarations and parameters. -/

theorem Declarator.Derives.shorter {specifier : Specifier} {start rest : List Token}
    {declarator : Declarator} (derived : declarator.Derives specifier start rest) :
    rest.length < start.length := by
  cases derived with
  | scalar stars named | array stars named opens spelled fits nonempty closes small =>
    have inside := stars.shorter
    simp only [List.length_cons] at inside
    omega

/-- Whether a declarator of an object ends before the token. -/
def TokenKind.endsDeclarator (kind : TokenKind) : Prop := kind = .comma ∨ kind = .semicolon

/-- An object with its name and whatever follows it, to its end. -/
def Declarator.Whole (specifier : Specifier) (start : List Token) (declarator : Declarator)
    (rest : List Token) : Prop :=
  declarator.Derives specifier start rest ∧ (ahead rest).endsDeclarator

theorem Declaration.Derives.shorter {start rest : List Token} {declaration : Declaration}
    (derived : declaration.Derives start rest) : rest.length < start.length := by
  obtain ⟨_, declared, _⟩ := derived
  have inside := Commas.shorter (fun _ _ _ => Declarator.Derives.shorter) declared
  simp only [List.length_cons] at inside ⊢
  omega

theorem Declaration.Derives.opens {start rest : List Token} {declaration : Declaration}
    (derived : declaration.Derives start rest) : (ahead start).isSpecifier = true := by
  obtain ⟨specified, _, _⟩ := derived
  rw [ahead_cons, specified]
  rfl

theorem Parameter.Derives.shorter {start rest : List Token} {parameter : Parameter}
    (derived : parameter.Derives start rest) : rest.length < start.length := by
  obtain ⟨_, stars, _⟩ := derived
  have inside := stars.shorter
  simp only [List.length_cons] at inside ⊢
  omega

theorem Parameter.Derives.opens {start rest : List Token} {parameter : Parameter}
    (derived : parameter.Derives start rest) : (ahead start).isSpecifier = true := by
  obtain ⟨specified, _, _⟩ := derived
  rw [ahead_cons, specified]
  rfl

theorem Parameters.Derives.shorter {start rest : List Token} {parameters : Parameters}
    (derived : parameters.Derives start rest) : rest.length < start.length := by
  cases derived with
  | nothing => exact Nat.lt_succ_self _
  | closed listed => exact Commas.shorter (fun _ _ _ => Parameter.Derives.shorter) listed
  | variadic listed =>
    have inside := Commas.shorter (fun _ _ _ => Parameter.Derives.shorter) listed
    simp only [List.length_cons] at inside
    omega

/-! Statements. -/

/-- Whether a statement starts with the token. -/
def TokenKind.opensClause : TokenKind → Bool
  | .leftBrace | .breakWord | .returnWord | .whileWord | .forWord | .ifWord => true
  | kind => kind.opensPhrase

theorem TokenKind.opensClause_of_phrase {kind : TokenKind} (opens : kind.opensPhrase = true) :
    kind.opensClause = true := by
  cases kind <;> simp_all [opensClause, opensPhrase, opensOperand]

namespace Clause

theorem Assigns.shorter {start rest : List Token} {clause : Clause}
    (assigns : Assigns start clause rest) : rest.length < start.length := by
  cases assigns with
  | evaluate derived => exact derived.shorter
  | assign first _ second =>
    have left := first.shorter
    have right := second.shorter
    simp only [List.length_cons] at left
    omega

theorem Assigns.opens {start rest : List Token} {clause : Clause}
    (assigns : Assigns start clause rest) : (ahead start).opensPhrase = true := by
  cases assigns with
  | evaluate derived => exact derived.opens
  | assign first _ _ => exact first.opens

theorem Condition.shorter {start rest : List Token} {test : Phrase}
    (tests : Condition start test rest) : rest.length < start.length := by
  obtain ⟨_, derived, _⟩ := tests
  have inside := derived.shorter
  simp only [List.length_cons] at inside ⊢
  omega

mutual

theorem Derives.shorter {start rest : List Token} {clause : Clause} :
    Derives start clause rest → rest.length < start.length
  | .simple assigns _ => Nat.lt_trans (Nat.lt_succ_self _) assigns.shorter
  | .breakLoop _ _ => Nat.lt_trans (Nat.lt_succ_self _) (Nat.lt_succ_self _)
  | .returnValue _ derived _ => by
    have inside := derived.shorter
    simp only [List.length_cons] at inside ⊢
    omega
  | .block _ declares runs _ => by
    have first := Run.shorter (fun _ _ _ => Declaration.Derives.shorter) declares
    have second := Derives.shorter_run runs
    simp only [List.length_cons] at second ⊢
    omega
  | .whileLoop _ tests turn | .ifThen _ tests turn =>
    Nat.lt_succ_of_lt (Nat.lt_trans turn.shorter tests.shorter)
  | .forLoop _ _ starts _ tests _ steps _ turn => by
    have first := starts.shorter
    have second := tests.shorter
    have third := steps.shorter
    have last := turn.shorter
    simp only [List.length_cons] at first second third ⊢
    omega
  | .ifElse _ tests taken _ _ other => by
    have first := tests.shorter
    have second := taken.shorter
    have third := other.shorter
    simp only [List.length_cons] at second ⊢
    omega

theorem Derives.shorter_run {start rest : List Token} {clauses : List Clause} :
    Run Derives start clauses rest → rest.length ≤ start.length
  | .nil _ => Nat.le_refl _
  | .cons head tail => Nat.le_of_lt (Nat.lt_of_le_of_lt (Derives.shorter_run tail) head.shorter)

end

theorem Derives.opens {start rest : List Token} {clause : Clause}
    (derived : Derives start clause rest) : (ahead start).opensClause = true := by
  cases derived with
  | simple assigns _ => exact TokenKind.opensClause_of_phrase assigns.opens
  | breakLoop spelled | returnValue spelled | whileLoop spelled | forLoop spelled | ifThen spelled
  | ifElse spelled => simp [TokenKind.opensClause, spelled]
  | block opens => simp [TokenKind.opensClause, opens]

/-- A clause that takes every branch that follows it. -/
def Whole (start : List Token) (clause : Clause) (rest : List Token) : Prop :=
  Derives start clause rest ∧ clause.EndsBefore (ahead rest)

/-- A clause that leaves no branch open is whole whatever follows it. -/
theorem Derives.whole {start rest : List Token} {clause : Clause}
    (derived : Derives start clause rest) (closed : clause.dangles = false) :
    Whole start clause rest := by
  refine ⟨derived, fun left => ?_⟩
  rw [closed] at left
  contradiction

/-- Statements in braces take every branch that follows them. -/
theorem whole_run {start rest : List Token} {clauses : List Clause}
    (runs : Run Derives start clauses rest) (closes : ahead rest = .rightBrace) :
    Run Whole start clauses rest := by
  have fits := Run.follow (· ≠ .elseWord) (fun start clause rest derived plain => ?_) runs
    (by simp [closes])
  · exact Run.mono (fun _ _ _ both => ⟨both.1, fun _ => both.2⟩) fits
  · have opens := derived.opens
    rw [plain] at opens
    cases opens

/-- No statement starts with the closing brace. -/
theorem Derives.not_closes {start rest : List Token} {clause : Clause}
    (derived : Derives start clause rest) : ahead start ≠ .rightBrace := by
  intro closes
  have opens := derived.opens
  rw [closes] at opens
  cases opens

/-- Neither a statement nor the closing brace is a declaration. -/
theorem not_isSpecifier_run {start rest : List Token} {clauses : List Clause}
    (runs : Run Derives start clauses rest) (closes : ahead rest = .rightBrace) :
    (ahead start).isSpecifier = false := by
  -- Without a statement the brace comes next; a statement starts with no specifier.
  cases runs with
  | nil =>
    rw [closes]
    rfl
  | cons head tail =>
    have opens := head.opens
    cases found : ahead start
    case specifier =>
      rw [found] at opens
      cases opens
    all_goals rfl

end Clause

/-! Units. -/

theorem GlobalDeclarator.Derives.shorter {specifier : Specifier} {start rest : List Token}
    {declarator : GlobalDeclarator} (derived : declarator.Derives specifier start rest) :
    rest.length < start.length := by
  cases derived with
  | object derived => exact derived.shorter
  | prototype stars named opens derived closes =>
    have first := stars.shorter
    have second := derived.shorter
    simp only [List.length_cons] at first second
    omega

/-- A variable or a function without a body, to its end. -/
def GlobalDeclarator.Whole (specifier : Specifier) (start : List Token)
    (declarator : GlobalDeclarator) (rest : List Token) : Prop :=
  declarator.Derives specifier start rest ∧ (ahead rest).endsDeclarator

theorem Global.Derives.opens {start rest : List Token} {global : Global}
    (derived : global.Derives start rest) : (ahead start).isSpecifier = true := by
  cases derived with
  | declaration specified | definition specified =>
    rw [ahead_cons, specified]
    rfl

theorem Global.Derives.shorter {start rest : List Token} {global : Global}
    (derived : global.Derives start rest) : rest.length < start.length := by
  cases derived with
  | declaration _ declared _ =>
    have inside := Commas.shorter (fun _ _ _ => GlobalDeclarator.Derives.shorter) declared
    simp only [List.length_cons] at inside ⊢
    omega
  | definition _ stars _ _ derived _ _ declares runs _ =>
    -- Each part of the function takes at least one token.
    have first := stars.shorter
    have second := derived.shorter
    have third := Run.shorter (fun _ _ _ => Declaration.Derives.shorter) declares
    have last := Clause.Derives.shorter_run runs
    simp only [List.length_cons] at first second last ⊢
    omega

end SmallC
