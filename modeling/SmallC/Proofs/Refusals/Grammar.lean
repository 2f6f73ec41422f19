import SmallC.Proofs.Refusals.Parts

/-! The grammar as parts: what each nonterminal is put together from, and that it can be spelled. -/

namespace SmallC

namespace Part

/-! Types and declarations. -/

/-- The word of a specifier. -/
def specifier : Part :=
  token fun word => ∃ found, word.kind = .specifier found

instance : Spellable specifier :=
  ⟨[⟨.specifier .int, "int", .start⟩], spells_token ⟨.int, rfl⟩⟩

theorem stars_within : (of (Run Starred)).Within (of Stars) := by
  rintro start rest ⟨found, run⟩
  exact ⟨found.length, stars_iff.mpr ⟨found, rfl, run⟩⟩

theorem star_within : (lone .star).Within (of Starred) := by
  rintro start rest ⟨star, rfl, starred⟩
  exact ⟨star, rfl, starred⟩

instance : Spellable (of Stars) :=
  ⟨[], spells_of .none⟩

theorem typeName_within :
    ((lone .leftParen).andThen (specifier.andThen ((of Stars).andThen (lone .rightParen)))).Within
      (of TypeName) := by
  rintro start rest ⟨_, ⟨opening, rfl, opens⟩, _, ⟨word, rfl, found, spelled⟩, _, ⟨count, stars⟩,
    closing, rfl, closes⟩
  exact ⟨_, .scalar opens spelled stars closes⟩

/-- A declared variable that may follow any specifier. -/
def Object (start : List Token) (declarator : Declarator) (rest : List Token) : Prop :=
  ∀ specifier, declarator.Derives specifier start rest

/-- The length of an array that is never too large. -/
def length : Part :=
  token fun number => number.kind = .integer ∧ ∃ length,
    decimalBelow? UInt32.size number.text = some length ∧ length ≠ 0 ∧
      ∀ specifier indirection, length * Ty.elementSize specifier indirection ≤ Ty.objectCeiling

/-- The brackets behind the name of an array. -/
def brackets : Part :=
  (lone .leftBracket).andThen (length.andThen (lone .rightBracket))

theorem object_within :
    ((of Stars).andThen ((lone .identifier).andThen (brackets.either nothing))).Within
      (of Object) := by
  rintro start rest ⟨_, ⟨count, stars⟩, _, ⟨name, rfl, named⟩, rest⟩
  rcases rest with ⟨_, ⟨opening, rfl, opens⟩, _, ⟨number, rfl, spelled, length, fits, some, small⟩,
    closing, rfl, closes⟩ | rfl
  · exact ⟨_, fun specifier => .array stars named opens spelled fits some closes (small _ _)⟩
  · exact ⟨_, fun specifier => .scalar stars named⟩

instance : Spellable (of Object) :=
  .within object_within

/-- What may stand for itself in a list may stand in it for more. -/
theorem commas_mono {α : Type} {item other : List Token → α → List Token → Prop}
    (inner : ∀ start thing rest, item start thing rest → other start thing rest)
    {start rest : List Token} {things : List α} (listed : Commas item start things rest) :
    Commas other start things rest := by
  induction listed with
  | one head => exact .one (inner _ _ _ head)
  | more head separated tail ih => exact .more (inner _ _ _ head) separated ih

theorem declaration_within :
    (specifier.andThen ((of (Commas Object)).andThen (lone .semicolon))).Within
      (of Declaration.Derives) := by
  rintro start rest ⟨_, ⟨word, rfl, found, spelled⟩, _, ⟨declarators, listed⟩, closing, rfl, closes⟩
  exact ⟨_, .shared spelled (commas_mono (fun _ _ _ object => object found) listed) closes⟩

theorem parameter_within :
    (specifier.andThen ((of Stars).andThen (lone .identifier))).Within (of Parameter.Derives) := by
  rintro start rest ⟨_, ⟨word, rfl, found, spelled⟩, _, ⟨count, stars⟩, name, rfl, named⟩
  exact ⟨_, .scalar spelled stars named⟩

/-- The parameters behind the first one, perhaps with dots. -/
def furtherParameters : Part := fun start rest =>
  ∃ others middle, Run (AfterComma Parameter.Derives) start others middle ∧
    ((lone .comma).andThen (lone .ellipsis)).either nothing middle rest

theorem furtherParameters_within :
    (((lone .comma).andThen ((lone .ellipsis).either
      ((of Parameter.Derives).andThen furtherParameters))).either nothing).Within
      furtherParameters := by
  rintro start rest (⟨middle, comma, dots | ⟨_, ⟨thing, head⟩, others, last, run, ends⟩⟩ | rfl)
  · exact ⟨[], start, .nil start, .inl ⟨middle, comma, dots⟩⟩
  · obtain ⟨comma, rfl, separated⟩ := comma
    exact ⟨thing :: others, last, .cons ⟨comma, _, rfl, separated, head⟩ run, ends⟩
  · exact ⟨[], start, .nil start, .inr rfl⟩

instance : Spellable furtherParameters :=
  .within ((within_right _ _).trans furtherParameters_within)

theorem parameters_within :
    ((lone .voidWord).either ((of Parameter.Derives).andThen furtherParameters)).Within
      (of Parameters.Derives) := by
  rintro start rest (⟨word, rfl, spelled⟩ | ⟨_, ⟨first, head⟩, others, middle, run, ends⟩)
  · exact ⟨_, .nothing spelled⟩
  · have listed : Commas Parameter.Derives start (first :: others) middle :=
      (commas_iff _).mpr ⟨first, others, _, rfl, head, run⟩
    rcases ends with ⟨_, ⟨comma, rfl, separated⟩, dots, rfl, dotted⟩ | rfl
    · exact ⟨_, .variadic listed separated dotted⟩
    · exact ⟨_, .closed listed⟩

instance : Spellable (of Parameter.Derives) :=
  .within parameter_within

instance : Spellable (of Parameters.Derives) :=
  .within ((within_left _ _).trans parameters_within)


/-! Expressions. -/

section Expressions

open Phrase (Derives Chain Suffixes)

/-- Operators of one precedence with their right operands. -/
def operands (tier : Tier) (tighter : List Tier) : Part := fun start rest =>
  ∀ left, ∃ phrase, Chain tier tighter left start phrase rest

/-- The operators behind an operand. -/
def suffixes : Part := fun start rest =>
  ∀ operand, ∃ phrase, Suffixes operand start phrase rest

/-- An operand with operators behind it is one operand of its precedence. -/
theorem chained {tier : Tier} {tighter : List Tier} {left phrase : Phrase}
    {start middle rest : List Token} (chain : Chain tier tighter left middle phrase rest)
    (first : Derives (.operation (tier :: tighter)) start left middle) :
    Derives (.operation (tier :: tighter)) start phrase rest := by
  induction chain with
  | done => exact first
  | more spelled placed second _ ih => exact ih (.binary first spelled placed second)

theorem suffixed {operand phrase : Phrase} {start middle rest : List Token}
    (behind : Suffixes operand middle phrase rest) (first : Derives .suffixed start operand middle) :
    Derives .suffixed start phrase rest := by
  induction behind with
  | done => exact first
  | subscript opens second closes _ ih => exact ih (.subscript first opens second closes)
  | step spelled _ ih => exact ih (.step first spelled)

theorem operation_within {tier : Tier} {tighter : List Tier} :
    ((of (Derives (.operation tighter))).andThen (operands tier tighter)).Within
      (of (Derives (.operation (tier :: tighter)))) := by
  rintro start rest ⟨middle, ⟨left, first⟩, behind⟩
  obtain ⟨phrase, chain⟩ := behind left
  exact ⟨phrase, chained chain (.tighter first)⟩

theorem operands_none {tier : Tier} {tighter : List Tier} :
    nothing.Within (operands tier tighter) := by
  rintro start rest rfl left
  exact ⟨left, .done left start⟩

theorem operands_more (sign : BinarySign) (tighter : List Tier) :
    ((lone sign.kind).andThen ((of (Derives (.operation tighter))).andThen
      (operands sign.tier tighter))).Within (operands sign.tier tighter) := by
  rintro start rest ⟨_, ⟨operator, rfl, spelled⟩, middle, ⟨right, second⟩, behind⟩ left
  obtain ⟨phrase, others⟩ := behind (.binary sign left right)
  exact ⟨phrase, .more spelled rfl second others⟩

instance {tier : Tier} {tighter : List Tier} : Spellable (operands tier tighter) :=
  .within operands_none

theorem operand_within : (of (Derives .prefixed)).Within (of (Derives (.operation []))) := by
  rintro start rest ⟨phrase, inner⟩
  exact ⟨phrase, .operand inner⟩

theorem unary_within {sign : UnarySign} {kind : TokenKind} (spelled : sign.kind? = some kind)
    (plain : kind ≠ .sizeofWord) :
    ((lone kind).andThen (of (Derives .prefixed))).Within (of (Derives .prefixed)) := by
  rintro start rest ⟨_, ⟨operator, rfl, rfl⟩, phrase, inner⟩
  exact ⟨_, .unary spelled (fun same => absurd same plain) inner⟩

/-- An operand that is no type in parentheses. -/
def Untyped (start : List Token) (phrase : Phrase) (rest : List Token) : Prop :=
  Derives .prefixed start phrase rest ∧ opensType start = false

theorem sizeof_within :
    ((lone .sizeofWord).andThen ((of TypeName).either (of Untyped))).Within
      (of (Derives .prefixed)) := by
  rintro start rest ⟨_, ⟨word, rfl, spelled⟩, ⟨type, named⟩ | ⟨phrase, inner, untyped⟩⟩
  · exact ⟨_, .sizeofType spelled named⟩
  · exact ⟨_, @Derives.unary .sizeof word _ _ _ (congrArg some spelled.symm) (fun _ => untyped) inner⟩

theorem cast_within :
    ((of TypeName).andThen (of (Derives .prefixed))).Within (of (Derives .prefixed)) := by
  rintro start rest ⟨middle, ⟨type, named⟩, phrase, inner⟩
  exact ⟨_, .cast named inner⟩

theorem suffixed_within : (of (Derives .suffixed)).Within (of (Derives .prefixed)) := by
  rintro start rest ⟨phrase, inner⟩
  exact ⟨phrase, .suffixed inner⟩

theorem primary_within :
    ((of (Derives .primary)).andThen suffixes).Within (of (Derives .suffixed)) := by
  rintro start rest ⟨middle, ⟨operand, first⟩, behind⟩
  obtain ⟨phrase, others⟩ := behind operand
  exact ⟨phrase, suffixed others (.primary first)⟩

theorem suffixes_none : nothing.Within suffixes := by
  rintro start rest rfl operand
  exact ⟨operand, .done operand start⟩

theorem suffixes_subscript :
    ((lone .leftBracket).andThen ((of (Derives .expression)).andThen
      ((lone .rightBracket).andThen suffixes))).Within suffixes := by
  rintro start rest ⟨_, ⟨opening, rfl, opens⟩, _, ⟨index, second⟩, _, ⟨closing, rfl, closes⟩, behind⟩
    operand
  obtain ⟨phrase, others⟩ := behind (.subscript operand index)
  exact ⟨phrase, .subscript opens second closes others⟩

theorem suffixes_step (op : StepOp) : ((lone op.kind).andThen suffixes).Within suffixes := by
  rintro start rest ⟨_, ⟨sign, rfl, spelled⟩, behind⟩ operand
  obtain ⟨phrase, others⟩ := behind (.step op operand)
  exact ⟨phrase, .step spelled others⟩

instance : Spellable suffixes :=
  .within suffixes_none

theorem parenthesised_within :
    ((lone .leftParen).andThen ((of (Derives .expression)).andThen (lone .rightParen))).Within
      (of (Derives .primary)) := by
  rintro start rest ⟨_, ⟨opening, rfl, opens⟩, _, ⟨phrase, inner⟩, closing, rfl, closes⟩
  exact ⟨phrase, .parenthesised opens inner closes⟩

theorem constant_within :
    (token fun token => ∃ value, Constant token value).Within (of (Derives .primary)) := by
  rintro start rest ⟨token, rfl, value, constant⟩
  exact ⟨_, .literal constant⟩

/-- The arguments of a call in parentheses. -/
def arguments : Part :=
  (lone .leftParen).andThen
    ((nothing.either (of (Commas (Derives .expression)))).andThen (lone .rightParen))

theorem named_within :
    ((lone .identifier).andThen (arguments.either nothing)).Within (of (Derives .primary)) := by
  rintro start rest ⟨_, ⟨token, rfl, spelled⟩, ⟨_, ⟨opening, rfl, opens⟩, _, passed, closing, rfl,
    closes⟩ | rfl⟩
  · rcases passed with rfl | ⟨phrases, passed⟩
    · exact ⟨_, .callNothing spelled opens closes⟩
    · exact ⟨_, .call spelled opens passed closes⟩
  · exact ⟨_, .name spelled⟩

/-- A name is something of every rung. -/
theorem name_within (rung : Rung) : (lone .identifier).Within (of (Derives rung)) := by
  rintro start rest ⟨token, rfl, spelled⟩
  have primary : Derives .primary (token :: rest) (.name token.text) rest := .name spelled
  cases rung with
  | primary => exact ⟨_, primary⟩
  | suffixed => exact ⟨_, .primary primary⟩
  | prefixed => exact ⟨_, .suffixed (.primary primary)⟩
  | operation tiers =>
    -- Every precedence lets tighter operands through.
    have joined : Derives (.operation tiers) (token :: rest) (.name token.text) rest := by
      induction tiers with
      | nil => exact .operand (.suffixed (.primary primary))
      | cons tier tighter ih => exact .tighter ih
    exact ⟨_, joined⟩

instance (rung : Rung) : Spellable (of (Derives rung)) :=
  .within (name_within rung)

/-- An opening parenthesis is not all of an operand. -/
theorem longer {rung : Rung} {start rest : List Token} {phrase : Phrase} :
    Derives rung start phrase rest → ahead start = .leftParen → rest.length + 2 ≤ start.length
  -- The token that is named is at the front of the leftmost part, and something comes behind that
  -- part.
  | .binary first _ _ second, opens | .subscript first _ second _, opens => by
    have left := longer first opens
    have right := second.shorter
    simp only [List.length_cons] at left right
    omega
  | .tighter inner, opens | .operand inner, opens | .suffixed inner, opens | .primary inner, opens =>
    longer inner opens
  | @Derives.unary sign _ _ _ _ spelled _ _, opens => by
    rw [ahead_cons] at opens
    rw [opens] at spelled
    cases sign <;> cases spelled
  | .sizeofType spelled _, opens => by cases spelled.symm.trans opens
  | .cast named inner, _ => by
    have target := named.shorter
    have operand := inner.shorter
    omega
  | .step first _, opens => by
    have left := longer first opens
    simp only [List.length_cons] at left
    omega
  | .parenthesised _ inner _, _ => by
    have inside := inner.shorter
    simp only [List.length_cons] at inside ⊢
    omega
  | .literal constant, opens => by
    rw [ahead_cons] at opens
    cases constant with
    | character spelled | string spelled | integer spelled | real spelled =>
      cases spelled.symm.trans opens
  | .name spelled, opens | .callNothing spelled _ _, opens | .call spelled _ _ _, opens => by
    cases spelled.symm.trans opens

/-- Tokens that are an operand are one without a type in parentheses, if they start like ones that do not
start so. -/
theorem spells_untyped {tokens behind : List Token} (spells : (of (Derives .prefixed)).Spells tokens)
    (plain : opensType (tokens ++ behind) = false) : (of Untyped).Spells tokens := by
  obtain ⟨others, alike, stands⟩ := spells
  refine ⟨others, alike, fun rest => ?_⟩
  obtain ⟨phrase, derived⟩ := stands rest
  refine ⟨phrase, derived, ?_⟩
  have long := longer derived
  have some := derived.shorter
  rw [List.length_append] at long some
  -- The kinds of the first two tokens decide.
  match others, alike with
  | [], _ => simp at some
  | [one], _ =>
    refine Phrase.opensType_of_ne fun opens => ?_
    have two := long opens
    simp at two
    omega
  | one :: two :: others, .cons first (.cons second _) =>
    simpa only [List.cons_append, opensType, first.kind, second.kind] using plain

theorem name_within_untyped : (lone .identifier).Within (of Untyped) := by
  rintro start rest ⟨token, rfl, spelled⟩
  obtain ⟨phrase, inner⟩ := name_within .prefixed (token :: rest) rest ⟨token, rfl, spelled⟩
  exact ⟨phrase, inner, Phrase.opensType_of_ne (by simp [spelled])⟩

instance : Spellable (of Untyped) :=
  .within name_within_untyped

theorem parenthesised_name :
    ((lone .leftParen).andThen ((lone .identifier).andThen (lone .rightParen))).Within
      (of Untyped) := by
  rintro start rest ⟨_, ⟨opening, rfl, opens⟩, middle, named, closing, rfl, closes⟩
  obtain ⟨phrase, inner⟩ := name_within .expression _ _ named
  obtain ⟨name, rfl, spelled⟩ := named
  refine ⟨phrase, .suffixed (.primary (.parenthesised opens inner closes)), ?_⟩
  simp [opensType, spelled, TokenKind.isSpecifier]

/-- An operand that is begun may become one without a type in parentheses, unless it starts with one. -/
theorem begins_untyped {tokens behind : List Token} {next : Token}
    (begins : (of (Derives .prefixed)).Begins tokens)
    (plain : opensType (tokens ++ next :: behind) = false) : (of Untyped).Begins tokens := by
  obtain ⟨more, spells⟩ := begins
  -- Whether a type starts is seen from two tokens, and with fewer taken the next one is still open.
  match tokens with
  | [] => exact begins_nil
  | [token] =>
    by_cases opens : token.kind = .leftParen
    · -- A name in parentheses is an operand too.
      have paren : (lone .leftParen).Spells [token] := spells_token opens
      exact (paren.andBegins begins_nil).within parenthesised_name
    · refine ⟨more, @spells_untyped _ [] spells ?_⟩
      exact Phrase.opensType_of_ne opens
  | first :: second :: others =>
    exact ⟨more, @spells_untyped _ [] spells (by simpa [opensType] using plain)⟩

end Expressions

/-! Statements. -/

section Statements

open Phrase (Derives)
open Clause (Assigns Condition)

theorem assigns_within :
    ((of (Derives .expression)).andThen
      (((lone .assign).andThen (of (Derives .expression))).either nothing)).Within (of Assigns) := by
  rintro start rest ⟨middle, ⟨left, first⟩, ⟨_, ⟨sign, rfl, spelled⟩, right, second⟩ | rfl⟩
  · exact ⟨_, .assign first spelled second⟩
  · exact ⟨_, .evaluate first⟩

theorem condition_within :
    ((lone .leftParen).andThen ((of (Derives .expression)).andThen (lone .rightParen))).Within
      (of Condition) := by
  rintro start rest ⟨_, ⟨opening, rfl, opens⟩, _, ⟨test, derived⟩, closing, rfl, closes⟩
  exact ⟨test, .parenthesised opens derived closes⟩

instance : Spellable (of Assigns) :=
  .within assigns_within

instance : Spellable (of Condition) :=
  .within condition_within

theorem simple_within : ((of Assigns).andThen (lone .semicolon)).Within (of Clause.Derives) := by
  rintro start rest ⟨_, ⟨clause, assigns⟩, closing, rfl, closes⟩
  exact ⟨clause, .simple assigns closes⟩

theorem break_within :
    ((lone .breakWord).andThen (lone .semicolon)).Within (of Clause.Derives) := by
  rintro start rest ⟨_, ⟨word, rfl, spelled⟩, closing, rfl, closes⟩
  exact ⟨_, .breakLoop spelled closes⟩

instance : Spellable (of Clause.Derives) :=
  .within break_within

theorem return_within :
    ((lone .returnWord).andThen ((of (Derives .expression)).andThen (lone .semicolon))).Within
      (of Clause.Derives) := by
  rintro start rest ⟨_, ⟨word, rfl, spelled⟩, _, ⟨value, derived⟩, closing, rfl, closes⟩
  exact ⟨_, .returnValue spelled derived closes⟩

/-- Declarations before statements in braces, but for the opening one. -/
def inside : Part :=
  (of (Run Declaration.Derives)).andThen ((of (Run Clause.Derives)).andThen (lone .rightBrace))

instance : Spellable inside :=
  inferInstanceAs (Spellable ((of (Run Declaration.Derives)).andThen
    ((of (Run Clause.Derives)).andThen (lone .rightBrace))))

theorem block_within : ((lone .leftBrace).andThen inside).Within (of Clause.Derives) := by
  rintro start rest ⟨_, ⟨opening, rfl, opens⟩, _, ⟨declared, declares⟩, _, ⟨body, runs⟩, closing, rfl,
    closes⟩
  exact ⟨_, .block opens declares runs closes⟩

theorem while_within :
    ((lone .whileWord).andThen ((of Condition).andThen (of Clause.Derives))).Within
      (of Clause.Derives) := by
  rintro start rest ⟨_, ⟨word, rfl, spelled⟩, _, ⟨test, tests⟩, body, turn⟩
  exact ⟨_, .whileLoop spelled tests turn⟩

theorem for_within :
    ((lone .forWord).andThen ((lone .leftParen).andThen ((of Assigns).andThen
      ((lone .semicolon).andThen ((of (Derives .expression)).andThen ((lone .semicolon).andThen
        ((of Assigns).andThen ((lone .rightParen).andThen (of Clause.Derives))))))))).Within
      (of Clause.Derives) := by
  rintro start rest ⟨_, ⟨word, rfl, spelled⟩, _, ⟨opening, rfl, opens⟩, _, ⟨init, starts⟩, _,
    ⟨first, rfl, separates⟩, _, ⟨test, tests⟩, _, ⟨second, rfl, parts⟩, _, ⟨increment, steps⟩, _,
    ⟨closing, rfl, closes⟩, body, turn⟩
  exact ⟨_, .forLoop spelled opens starts separates tests parts steps closes turn⟩

/-- A statement that has room for another branch is one statement with that branch behind it. -/
theorem branched {between : Token} {further rest : List Token} {otherwise : Clause}
    (parts : between.kind = .elseWord) (other : otherwise.Derives further rest) :
    ∀ {clause : Clause} {start : List Token}, clause.Derives start (between :: further) →
      clause.dangles = true → ∃ whole : Clause, whole.Derives start rest
  | _, _, .simple (.evaluate _) _, loose | _, _, .simple (.assign _ _ _) _, loose
  | _, _, .breakLoop _ _, loose | _, _, .returnValue _ _ _, loose | _, _, .block _ _ _ _, loose => by
    simp [Clause.dangles] at loose
  | _, _, .whileLoop spelled tests turn, loose => by
    rw [Clause.dangles] at loose
    obtain ⟨body, turn⟩ := branched parts other turn loose
    exact ⟨_, .whileLoop spelled tests turn⟩
  | _, _, .forLoop spelled opens starts separates tests middle steps closes turn, loose => by
    rw [Clause.dangles] at loose
    obtain ⟨body, turn⟩ := branched parts other turn loose
    exact ⟨_, .forLoop spelled opens starts separates tests middle steps closes turn⟩
  | _, _, @Clause.Derives.ifThen _ _ _ _ _ body spelled tests taken, _ => by
    -- The innermost conditional with one branch takes the other.
    cases inner : body.dangles with
    | true =>
      obtain ⟨body, taken⟩ := branched parts other taken inner
      exact ⟨_, .ifThen spelled tests taken⟩
    | false => exact ⟨_, .ifElse spelled tests taken inner parts other⟩
  | _, _, .ifElse spelled tests taken closed divides last, loose => by
    rw [Clause.dangles] at loose
    obtain ⟨otherwise, last⟩ := branched parts other last loose
    exact ⟨_, .ifElse spelled tests taken closed divides last⟩

theorem if_within :
    ((lone .ifWord).andThen ((of Condition).andThen ((of Clause.Derives).andThen
      (((lone .elseWord).andThen (of Clause.Derives)).either nothing)))).Within
      (of Clause.Derives) := by
  rintro start rest ⟨_, ⟨word, rfl, spelled⟩, _, ⟨test, tests⟩, _, ⟨body, taken⟩, behind⟩
  rcases behind with ⟨_, ⟨between, rfl, parts⟩, otherwise, other⟩ | rfl
  -- A branch that leaves a conditional open takes the other one for itself.
  · cases loose : body.dangles with
    | true =>
      obtain ⟨whole, taken⟩ := branched parts other taken loose
      exact ⟨_, .ifThen spelled tests taken⟩
    | false => exact ⟨_, .ifElse spelled tests taken loose parts other⟩
  · exact ⟨_, .ifThen spelled tests taken⟩

end Statements

/-! Units. -/

/-- A variable or a function without a body that may follow any specifier. -/
def Declared (start : List Token) (declarator : GlobalDeclarator) (rest : List Token) : Prop :=
  ∀ specifier, declarator.Derives specifier start rest

/-- Parameters in parentheses. -/
def signature : Part :=
  (lone .leftParen).andThen ((of Parameters.Derives).andThen (lone .rightParen))

theorem declared_within :
    ((of Stars).andThen ((lone .identifier).andThen
      (signature.either (brackets.either nothing)))).Within (of Declared) := by
  rintro start rest ⟨_, ⟨count, stars⟩, _, ⟨name, rfl, named⟩, ⟨_, ⟨opening, rfl, opens⟩, _,
    ⟨parameters, derived⟩, closing, rfl, closes⟩ | behind⟩
  · exact ⟨_, fun specifier => .prototype stars named opens derived closes⟩
  · obtain ⟨declarator, object⟩ := object_within start rest
      ⟨_, ⟨count, stars⟩, _, ⟨name, rfl, named⟩, behind⟩
    exact ⟨_, fun specifier => .object (object specifier)⟩

instance : Spellable (of Declared) :=
  .within declared_within

/-- The declarators behind the first one, and the semicolon. -/
def furtherDeclarators : Part :=
  (of (Run (AfterComma Declared))).andThen (lone .semicolon)

instance : Spellable furtherDeclarators :=
  inferInstanceAs (Spellable ((of (Run (AfterComma Declared))).andThen (lone .semicolon)))

/-- What may follow a name at the top of a unit. -/
def topmost : Part :=
  ((lone .leftParen).andThen ((of Parameters.Derives).andThen ((lone .rightParen).andThen
    (((lone .leftBrace).andThen inside).either furtherDeclarators)))).either
      ((brackets.either nothing).andThen furtherDeclarators)

instance : Spellable topmost :=
  inferInstanceAs (Spellable (Part.either _ ((brackets.either nothing).andThen furtherDeclarators)))

theorem declarations_within :
    (specifier.andThen ((of Declared).andThen furtherDeclarators)).Within (of Global.Derives) := by
  rintro start rest ⟨_, ⟨word, rfl, found, specified⟩, _, ⟨first, head⟩, _, ⟨others, run⟩, closing, rfl,
    closes⟩
  -- All of them share the specifier.
  have listed := (commas_iff Declared).mpr ⟨first, others, _, rfl, head, run⟩
  exact ⟨_, .declaration specified (commas_mono (fun _ _ _ declared => declared found) listed)
    closes⟩

theorem global_within :
    (specifier.andThen ((of Stars).andThen ((lone .identifier).andThen topmost))).Within
      (of Global.Derives) := by
  rintro start rest ⟨_, word, _, stars, _, name, ⟨_, opening, _, parameters, _, closing, behind⟩ |
    ⟨_, object, behind⟩⟩
  -- A definition and a prototype are told apart only behind the parameters.
  · rcases behind with defined | behind
    · obtain ⟨word, rfl, found, specified⟩ := word
      obtain ⟨count, stars⟩ := stars
      obtain ⟨name, rfl, named⟩ := name
      obtain ⟨opening, rfl, opens⟩ := opening
      obtain ⟨parameters, derived⟩ := parameters
      obtain ⟨closing, rfl, closes⟩ := closing
      obtain ⟨_, ⟨brace, rfl, begins⟩, _, ⟨declarations, declares⟩, _, ⟨clauses, runs⟩, last, rfl,
        ends⟩ := defined
      exact ⟨_, .definition specified stars named opens derived closes begins declares runs ends⟩
    · have signed : signature _ _ := ⟨_, opening, _, parameters, closing⟩
      exact declarations_within _ _
        ⟨_, word, _, declared_within _ _ ⟨_, stars, _, name, .inl signed⟩, behind⟩
  · exact declarations_within _ _
      ⟨_, word, _, declared_within _ _ ⟨_, stars, _, name, .inr object⟩, behind⟩

end Part

end SmallC
