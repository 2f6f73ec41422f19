import SmallC.Proofs.Report.Walks

/-! Reading a unit is a walk, procedure by procedure. -/

namespace SmallC

namespace Reading

/-! Expressions. -/

/-- An operator before its operand is judged behind it. -/
theorem walking_unary (sign : UnarySign) {operand : Reading Expression} (walks : Walking operand) :
    Walking (do discard advance; check (sign.check (← operand))) :=
  walking.skip .advance (walks.bind fun value => .check (sign.judged value).known)

mutual

theorem walking_expression : (levels : Nat) → Walking (expression levels)
  | 0 => by
    unfold expression
    exact walking.tooDeep
  | levels + 1 => by
    unfold expression
    exact walking_operation Tier.all levels
termination_by levels => (levels, 0)

theorem walking_operation : (tiers : List Tier) → (levels : Nat) → Walking (operation tiers levels)
  | [], levels => by
    unfold operation
    exact walking_prefixed levels
  | tier :: tighter, levels => by
    unfold operation
    exact (walking_operation tighter levels).bind fun left =>
      walking_furtherOperands tier tighter left levels
termination_by tiers levels => (levels, tiers.length + 4)

theorem walking_furtherOperands (tier : Tier) (tighter : List Tier) (left : Expression) (levels : Nat) :
    Walking (furtherOperands tier tighter left levels) := by
  unfold furtherOperands
  refine walking.kind.bind fun found => ?_
  cases ruled : tier.rule? found with
  | none => exact .pure _
  | some rule =>
    match levels with
    | 0 => exact walking.tooDeep
    | levels + 1 =>
      -- The rule is the check of a sign between two operands.
      obtain ⟨sign, -, -, rfl⟩ := BinarySign.rule_eq_some.mp ruled
      refine walking.skip .advance ((walking_operation tighter levels).bind fun right => ?_)
      exact (Walking.check (sign.judged left right).known).bind fun joined =>
        walking_furtherOperands tier tighter joined levels
termination_by (levels, 0)

theorem walking_prefixed : (levels : Nat) → Walking (prefixed levels)
  | 0 => by
    unfold prefixed
    exact walking.tooDeep
  | levels + 1 => by
    have operand := walking_prefixed levels
    unfold prefixed
    refine walking.startsTypeName.bind fun typed => walking.kind.bind fun found => ?_
    cases found with
    | bang => exact walking_unary .not operand
    | minus => exact walking_unary .negate operand
    | star => exact walking_unary .dereference operand
    | ampersand => exact walking_unary .address operand
    | sizeofWord =>
      refine walking.skip .advance (walking.startsTypeName.bind fun named => ?_)
      split
      · exact walking.typeName.bind fun type => .pure _
      · exact operand.bind fun value => .check ((UnarySign.sizeof.judged value).known)
    | leftParen =>
      dsimp only
      split
      · exact walking.typeName.bind fun target => operand.bind fun value =>
          .check (judged_checkCast target value).known
      · exact walking_suffixed levels
    | _ => exact walking_suffixed levels
termination_by levels => (levels, 3)

theorem walking_suffixed (levels : Nat) : Walking (suffixed levels) := by
  unfold suffixed
  exact (walking_primary levels).bind fun operand => walking_furtherSuffixes operand levels
termination_by (levels, 2)

theorem walking_furtherSuffixes (operand : Expression) (levels : Nat) :
    Walking (furtherSuffixes operand levels) := by
  unfold furtherSuffixes
  refine walking.kind.bind fun found => ?_
  cases found with
  | leftBracket =>
    match levels with
    | 0 => exact walking.tooDeep
    | levels + 1 =>
      refine walking.skip .advance ((walking_expression levels).bind fun index => ?_)
      refine (Walking.check (judged_checkSubscript operand index).known).bind fun element => ?_
      exact walking.skip (walking.expect _) (walking_furtherSuffixes element levels)
  | increment | decrement =>
    match levels with
    | 0 => exact walking.tooDeep
    | levels + 1 =>
      -- A step is judged with its sign still in hand.
      refine (Walking.check (judged_checkStep _ operand).known).bind fun stepped => ?_
      exact walking.skip .advance (walking_furtherSuffixes stepped levels)
  | _ => exact .pure _
termination_by (levels, 0)

theorem walking_primary (levels : Nat) : Walking (primary levels) := by
  unfold primary
  refine walking.kind.bind fun found => ?_
  cases found with
  | leftParen =>
    refine walking.skip .advance ((walking_expression levels).bind fun inner => ?_)
    exact walking.skip (walking.expect _) (.pure _)
  | character | string | real => exact Walking.advance.bind fun token => .pure _
  | integer => exact walking.wholeNumber.bind fun value => .pure _
  | identifier =>
    -- The name is taken first, so it is looked up with the next token in hand.
    refine .resolve fun symbol => walking.kind.bind fun follows => ?_
    split
    · -- Behind the name a parenthesis opens the arguments of a call.
      have listed : Walking (callArguments (expression levels)) := by
        refine walking.kind.bind fun closes => ?_
        split
        · exact .pure _
        · exact walking.commaSeparated (walking_expression levels)
      refine walking.skip .advance (listed.bind fun arguments => ?_)
      have calls : Walking (act (Checker.call symbol arguments)) :=
        .act fun _ => .record (judged_checkCall _ _ _).known
      exact calls.bind fun call => walking.skip (walking.expect _) (.pure _)
    · exact Walking.get.bind fun reader => .pure _
  | _ => exact walking.unexpected
termination_by (levels, 1)

end

/-! Statements. -/

theorem walking_assignment (levels : Nat) : Walking (assignment levels) := by
  unfold assignment
  refine (walking_expression levels).bind fun left => walking.kind.bind fun found => ?_
  split
  · refine walking.skip .advance ((walking_expression levels).bind fun right => ?_)
    exact .check (judged_checkAssign left right).known
  · exact .pure _

theorem walking_test {value : Expression} : Walking (check (checkTest value)) :=
  .check (judged_checkTest _).known

theorem walking_condition (levels : Nat) : Walking (condition levels) := by
  unfold condition
  refine walking.skip (walking.expect _) ((walking_expression levels).bind fun value => ?_)
  exact walking_test.bind fun test => walking.skip (walking.expect _) (.pure _)

theorem walking_closeScope : Walking (act Checker.closeScope) :=
  .act fun _ => .closeScope

theorem walking_openScope : Walking (act Checker.openScope) :=
  .act fun _ => .openScope

theorem walking_statement : (levels : Nat) → Walking (statement levels)
  | 0 => by
    unfold statement
    exact walking.tooDeep
  | levels + 1 => by
    -- A statement walks because its parts do, in the order in which they are read.
    have value := walking_expression levels
    have body := walking_statement levels
    have assigns := walking_assignment levels
    unfold statement
    refine walking.kind.bind fun found => ?_
    cases found with
    | leftBrace =>
      refine walking.skip .advance (walking_openScope.bind fun scope => ?_)
      refine walking.declarations.bind fun _ => (walking.many _ body).bind fun inner => ?_
      exact walking.skip walking_closeScope (walking.skip (walking.expect _) (.pure _))
    | breakWord =>
      refine walking.skip .advance (Walking.get.bind fun reader => ?_)
      refine (Walking.check (known_checkBreak _)).bind fun leave => ?_
      exact walking.skip (walking.expect _) (.pure _)
    | returnWord =>
      refine walking.skip .advance (value.bind fun result => Walking.get.bind fun reader => ?_)
      have returns : Walking (check (checkReturn reader.checker.returned result)) :=
        .check (judged_checkReturn _ _).known
      exact returns.bind fun leave => walking.skip (walking.expect _) (.pure _)
    | whileWord =>
      refine walking.skip .advance ((walking_condition levels).bind fun test => ?_)
      exact (Walking.insideLoop body).bind fun turn => .pure _
    | forWord =>
      refine walking.skip .advance (walking.skip (walking.expect _) (assigns.bind fun init => ?_))
      refine walking.skip (walking.expect _) (value.bind fun condition => ?_)
      refine walking_test.bind fun test => walking.skip (walking.expect _) ?_
      refine assigns.bind fun increment => walking.skip (walking.expect _) ?_
      exact (Walking.insideLoop body).bind fun turn => .pure _
    | ifWord =>
      refine walking.skip .advance ((walking_condition levels).bind fun test => ?_)
      refine body.bind fun taken => walking.kind.bind fun follows => ?_
      split
      · exact walking.skip .advance (body.bind fun otherwise => .pure _)
      · exact .pure _
    | _ => exact assigns.bind fun done => walking.skip (walking.expect _) (.pure _)

/-! Units. -/

theorem walking_signature (specifier : Specifier) (indirection : Nat) :
    Walking (signature specifier indirection) :=
  walking_openScope.bind fun _ => walking.parameterList.bind fun _ => .pure _

theorem walking_declarePrototype (name : String) (type : Ty) :
    Walking (declarePrototype name type) :=
  (Walking.adjust fun _ => .closeParameters).bind fun _ =>
    walking.discard (.act fun _ => .declareFunction name type)

theorem walking_globalDeclarator (specifier : Specifier) : Walking (globalDeclarator specifier) := by
  refine walking.stars.bind fun indirection => walking.name.bind fun name => ?_
  refine walking.kind.bind fun found => ?_
  split
  · refine walking.skip .advance ((walking_signature specifier indirection).bind fun signed => ?_)
    exact (walking_declarePrototype name signed.1).bind fun _ => walking.discard (walking.expect _)
  · exact walking.declareObject _ _ _

theorem walking_furtherDeclarators (specifier : Specifier) :
    Walking (furtherDeclarators specifier) := by
  have each := walking.skip .advance (walking_globalDeclarator specifier)
  exact walking.skip (walking.many _ each) (walking.discard (walking.expect _))

theorem walking_functionBody (name : String) (type : Ty) (scope : ScopeId) :
    Walking (functionBody name type scope) := by
  unfold functionBody
  refine Walking.get.bind fun reader => ?_
  extract_lets _ body
  -- The body is read alike, whether the function is begun before or not.
  have reads : Walking (body ⟨⟩) := by
    have defines : Walking (act (Checker.defineFunction name type)) :=
      .act fun _ => .defineFunction name type
    refine defines.bind fun symbol => walking.skip (walking.expect _) ?_
    refine walking.declarations.bind fun _ => ?_
    refine (walking.many _ (walking_statement reader.limit)).bind fun statements => ?_
    exact walking_closeScope.bind fun closed => walking.skip (walking.expect _) (.pure _)
  cases type.specifier? with
  | none => exact reads
  | some specifier =>
    have begins : Walking (adjust (·.beginFunction (.scalar specifier type.indirection))) :=
      .adjust fun _ => .beginFunction _
    exact begins.bind fun _ => reads

theorem walking_topLevel : Walking topLevel := by
  refine walking.specifier.bind fun specifier => walking.stars.bind fun indirection => ?_
  refine walking.name.bind fun name => walking.kind.bind fun found => ?_
  -- The same declarators may follow an object and a prototype.
  have further : Walking (do furtherDeclarators specifier; return (none : Option Function)) :=
    (walking_furtherDeclarators specifier).bind fun _ => .pure _
  split
  · refine walking.skip .advance ((walking_signature specifier indirection).bind fun signed => ?_)
    refine walking.skip (walking.expect _) (walking.kind.bind fun follows => ?_)
    split
    · exact (walking_functionBody name signed.1 signed.2).bind fun function => .pure _
    · exact (walking_declarePrototype name signed.1).bind fun _ => further
  · exact (walking.declareObject _ _ _).bind fun _ => further

end Reading

section Consumers

variable {σ : Type} (consume : Consumer σ)

/-- Declarations are read one after the other, and what becomes of a function is no part of it. -/
theorem readDeclarations_walks (clock : List Token) (reader : Reader) (output : σ) :
    reader.Walks (readDeclarations consume clock reader output).reader := by
  induction clock generalizing reader output with
  | nil =>
    unfold readDeclarations
    split <;> exact .refl reader
  | cons token clock ih =>
    unfold readDeclarations
    split
    · exact .refl reader
    · have walks := Reading.walking_topLevel reader
      cases read : Reading.topLevel reader with
      | error failure last =>
        rw [read] at walks
        exact walks
      | ok result last =>
        rw [read] at walks
        cases result with
        | none => exact walks.trans (ih last output)
        | some function =>
          -- A function that is handed on may get places in a frame, which are not reported.
          exact walks.trans (.act (.handOn consume function output) (ih _ _))

/-- A unit is read in one walk from its first token. -/
theorem readUnit_walks (tokens : List Token) (limit : Nat) (output : σ) :
    (Reader.before tokens limit {}).Walks (readUnit consume tokens limit output).reader :=
  readDeclarations_walks consume _ _ output

end Consumers

end SmallC
