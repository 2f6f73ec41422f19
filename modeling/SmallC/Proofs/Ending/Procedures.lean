import SmallC.Proofs.Ending.Spending

/-! The expense of every part of the grammar: how many tokens it takes at least, and what they leave to
spare. -/

namespace SmallC

namespace Metered

open Spends (kind)

variable {turns : Nat} {here : Option TokenKind}

/-! Declarations. -/

theorem spends_name : Spends turns here 1 30 2 name Reading.name :=
  (Spends.expect (by decide)).bind (by decide) fun _ => .pure _ (by decide) (by decide)

theorem spends_wholeNumber : Spends turns here 1 30 2 wholeNumber Reading.wholeNumber := by
  refine (Spends.expect (by decide)).bind (by decide) fun token => ?_
  cases decimalBelow? UInt32.size token.text with
  | some value => exact .pure _ (by decide) (by decide)
  | none => exact Spends.throw _ (by decide)

theorem spends_specifier : Spends turns here 1 30 2 specifier Reading.specifier := by
  refine kind fun found => ?_
  cases found with
  | specifier found =>
    exact (Spends.advance (by simp)).skip (by decide) (.pure _ (by decide) (by decide))
  | _ => exact Spends.unexpected (by decide)

theorem spends_stars : Spends turns here 0 (-1) 1 (stars turns) Reading.stars := by
  have each : ∀ found, decide (found = TokenKind.star) = true →
      Spends turns (some found) 1 31 0 (once Reading.advance) Reading.advance := by
    intro found same
    obtain rfl := of_decide_eq_true same
    exact Spends.advance (by decide)
  exact (Spends.many each (by decide) (by decide) (by decide)).bind (by decide)
    fun _ => .pure _ (by decide) (by decide)

theorem spends_arrayLength : Spends turns here 1 30 2 arrayLength Reading.arrayLength := by
  refine .look fun reader => spends_wholeNumber.bind (by decide) fun length => ?_
  split
  · exact Spends.throw _ (by decide)
  · exact .pure _ (by decide) (by decide)

theorem spends_arrayType (specifier : Specifier) (indirection : Nat) (name : String) :
    Spends turns here 3 90 2 (arrayType specifier indirection name)
      (Reading.arrayType specifier indirection name) := by
  refine (Spends.expect (by decide)).skip (by decide) (.look fun reader => ?_)
  refine spends_arrayLength.bind (by decide) fun length => ?_
  refine (Spends.expect (by decide)).skip (by decide) ?_
  cases Ty.sizedArray? specifier indirection length with
  | some type => exact .pure _ (by decide) (by decide)
  | none => exact Spends.throw _ (by decide)

theorem spends_declareObject (specifier : Specifier) (indirection : Nat) (name : String) :
    Spends turns here 0 (-2) 3 (declareObject specifier indirection name)
      (Reading.declareObject specifier indirection name) := by
  -- A bracket may follow the name, and its length is read before the name is declared.
  have typed : Spends turns here 0 (-1) 3 (variableType specifier indirection name)
      (Reading.variableType specifier indirection name) := by
    refine kind fun found => ?_
    split
    · exact (spends_arrayType _ _ _).within (by decide) (by decide) (by decide)
    · exact .pure _ (by decide) (by decide)
  refine typed.bind (by decide) fun type => ?_
  exact (Spends.act (Checker.stays_declareVariable name type)).discard.within (by decide) (by decide)
    (by decide)

theorem spends_declarator (specifier : Specifier) :
    Spends turns here 1 27 3 (declarator turns specifier) (Reading.declarator specifier) := by
  refine spends_stars.bind (by decide) fun indirection => ?_
  refine spends_name.bind (by decide) fun name => ?_
  exact (spends_declareObject _ _ _).within (by decide) (by decide) (by decide)

theorem spends_declaration :
    Spends turns here 3 86 3 (declaration turns) Reading.declaration := by
  -- The specifier, a name and the semicolon are there in any case.
  refine spends_specifier.bind (by decide) fun specifier => ?_
  refine (Spends.commaSeparated (fun _ => spends_declarator specifier) (by decide)
    (by decide)).skip (by decide) ?_
  exact (Spends.expect (by decide)).discard.within (by decide) (by decide) (by decide)

theorem spends_declarations :
    Spends turns here 0 (-1) 4 (declarations turns) Reading.declarations :=
  (Spends.many (fun _ _ => spends_declaration) (by decide) (by decide) (by decide)).discard

theorem spends_parameter : Spends turns here 2 58 2 (parameter turns) Reading.parameter := by
  refine spends_specifier.bind (by decide) fun specifier => ?_
  refine spends_stars.bind (by decide) fun indirection => ?_
  refine spends_name.bind (by decide) fun name => ?_
  exact (Spends.act (Checker.stays_declareVariable name _)).skip (by decide)
    (.pure _ (by decide) (by decide))

/-- The parameters after the first one: every turn takes the comma before it. -/
theorem spends_furtherParameters {bound left : Nat} {clock : List Token} (near : bound ≤ left)
    (turning : bound ≤ turns) (lasting : bound ≤ clock.length + 1) :
    Spends bound here 0 (-1) 1 (furtherParameters turns left) (Reading.furtherParameters clock) := by
  -- Turns, clock and distance run down together, and the distance is the smallest of them.
  induction left generalizing bound clock here with
  | zero => exact fun reader steps closer _ => absurd closer (by omega)
  | succ left ih =>
    cases clock with
    | nil =>
      refine kind fun found => ?_
      by_cases comma : found = .comma
      · -- At the end of the source there is no comma.
        intro reader steps closer known
        have bounded : bound ≤ 1 := lasting
        have done : reader.current.kind = .done := Reader.distance_eq_zero.mp (by omega)
        rw [known found rfl, comma] at done
        cases done
      · rw [if_neg comma, if_neg comma]
        exact .pure _ (by decide) (by decide)
    | cons tick clock =>
      refine kind fun found => ?_
      split
      · next comma =>
        subst comma
        refine (Spends.advance (by decide)).discard.bindCloser (by decide) fun _ => ?_
        refine kind fun next => ?_
        split
        · next dots =>
          subst dots
          exact (Spends.advance (by decide)).skip (by decide) (.pure _ (by decide) (by decide))
        · have first : Spends (bound - 1) (some next) 2 58 2 (parameter turns) Reading.parameter :=
            spends_parameter.closer (by omega)
          have longer : bound ≤ clock.length + 1 + 1 := lasting
          have further : Spends (bound - 1) none 0 (-1) 1 (furtherParameters turns left)
              (Reading.furtherParameters clock) := ih (by omega) (by omega) (by omega)
          refine first.bind (by decide) fun _ => ?_
          exact further.bind (by decide) fun others => .pure _ (by decide) (by decide)
      · exact .pure _ (by decide) (by decide)

theorem spends_signature (specifier : Specifier) (indirection : Nat) :
    Spends turns here 1 29 4 (signature turns specifier indirection)
      (Reading.signature specifier indirection) := by
  have listed (here : Option TokenKind) :
      Spends turns here 1 30 3 (parameterList turns) Reading.parameterList := by
    refine kind fun found => ?_
    split
    · next same =>
      subst same
      exact (Spends.advance (by decide)).skip (by decide) (.pure _ (by decide) (by decide))
    · refine spends_parameter.bind (by decide) fun first reader steps near _ => ?_
      -- The loop may turn as often as tokens are ahead of this very reader.
      have further : Spends (reader.distance + 1) none 0 (-1) 1 (furtherParameters turns turns)
          (Reading.furtherParameters reader.remaining) :=
        spends_furtherParameters near near (Nat.succ_le_succ reader.distance_le)
      have paid := further.paid (Nat.lt_succ_self _) steps
      exact paid.andThen (by decide) fun _ _ _ _ _ _ => .idle _ (by decide) (by decide)
  refine (Spends.act fun _ => Checker.stays_of_eq rfl rfl).bind (by decide) fun scope => ?_
  exact (listed _).bind (by decide) fun parameters => .pure _ (by decide) (by decide)

/-! Expressions. -/

theorem spends_typeName : Spends turns here 3 89 2 (typeName turns) Reading.typeName := by
  -- Two parentheses and the specifier between them.
  refine (Spends.expect (by decide)).skip (by decide) ?_
  refine spends_specifier.bind (by decide) fun specifier => ?_
  refine spends_stars.bind (by decide) fun indirection => ?_
  exact (Spends.expect (by decide)).skip (by decide) (.pure _ (by decide) (by decide))

/-- The operator that steps an operand pays for what may follow it. -/
theorem stepped_further {kind : TokenKind} (other : kind ≠ .done) {further : Metered Expression}
    {reading : Reading Expression} (rest : Spends turns none 0 (-1) 2 further reading) :
    Spends turns (some kind) 0 1 0 (do discard (once Reading.advance); further)
      (do discard Reading.advance; reading) :=
  (Spends.advance other).skip (by decide) (rest.within (by decide) (by decide) (by decide))

/-- Operands that are read alike are judged alike behind their operator. -/
theorem spends_unary {kind : TokenKind} (further : kind ≠ .done) {operand : Metered Expression}
    {reading : Reading Expression} (alike : Spends turns none 1 24 5 operand reading)
    (judge : Expression → Verdict Expression) :
    Spends turns (some kind) 1 26 3
      (do discard (once Reading.advance); once (Reading.check (judge (← operand))))
      (do discard Reading.advance; Reading.check (judge (← reading))) := by
  refine (Spends.advance further).skip (by decide) (alike.bind (by decide) fun value => ?_)
  exact (Spends.check _).within (by decide) (by decide) (by decide)

theorem spends_callArguments {argument : Metered Expression} {reading : Reading Expression}
    (each : ∀ here, Spends turns here 1 18 5 argument reading) :
    Spends turns here 0 (-1) 7 (callArguments argument turns) (Reading.callArguments reading) := by
  refine kind fun found => ?_
  split
  · exact .pure _ (by decide) (by decide)
  · exact (Spends.commaSeparated each (by decide) (by decide)).within (by decide) (by decide)
      (by decide)

/-- An operator that joins operands is no end of the source. -/
theorem ne_done_of_rule {tier : Tier} {found : TokenKind}
    {rule : Expression → Expression → Verdict Expression} (joins : tier.rule? found = some rule) :
    found ≠ .done := by
  rintro rfl
  cases tier <;> cases joins

mutual

theorem spends_expression (turns : Nat) (here : Option TokenKind) : (levels : Nat) →
    Spends turns here 1 18 5 (expression turns levels) (Reading.expression levels)
  | 0 => by
    unfold expression Reading.expression
    exact .tooDeep (by decide)
  | levels + 1 => by
    unfold expression Reading.expression
    exact (spends_operation turns here Tier.all levels (by decide)).within (by decide) (by decide)
      (by decide)
termination_by levels => (levels, 0)

/-- Every precedence looks at the token behind its operands. -/
theorem spends_operation (turns : Nat) (here : Option TokenKind) : (tiers : List Tier) →
    (levels : Nat) → tiers.length ≤ 6 →
    Spends turns here 1 (24 - tiers.length) 5 (operation turns tiers levels)
      (Reading.operation tiers levels)
  | [], levels, _ => by
    unfold operation Reading.operation
    exact spends_prefixed turns here levels
  | tier :: tighter, levels, few => by
    unfold operation Reading.operation
    -- A look costs one step for each precedence, and there are six.
    have fewer : tighter.length + 1 ≤ 6 := few
    have more : ((tier :: tighter).length : Int) = tighter.length + 1 := rfl
    refine (spends_operation turns here tighter levels (by omega)).bind (by decide) fun left => ?_
    exact (spends_furtherOperands turns none tier tighter left levels (by omega)).within (by decide)
      (by omega) (by omega)
termination_by tiers levels => (levels, tiers.length + 4)

theorem spends_furtherOperands (turns : Nat) (here : Option TokenKind) (tier : Tier)
    (tighter : List Tier) (left : Expression) (levels : Nat) (few : tighter.length ≤ 6) :
    Spends turns here 0 (-1) 2 (furtherOperands turns tier tighter left levels)
      (Reading.furtherOperands tier tighter left levels) := by
  unfold furtherOperands Reading.furtherOperands
  refine kind fun found => ?_
  cases joins : tier.rule? found with
  | none => exact .pure _ (by decide) (by decide)
  | some rule =>
    match levels with
    | 0 => exact .tooDeep (by decide)
    | levels + 1 =>
      -- The token of the operator pays for its own link of the chain.
      refine (Spends.advance (ne_done_of_rule joins)).skip (by decide) ?_
      refine (spends_operation turns none tighter levels few).bind (by decide) fun right => ?_
      refine (Spends.check _).bind (by omega) fun joined => ?_
      exact (spends_furtherOperands turns none tier tighter joined levels few).within (by decide)
        (by omega) (by omega)
termination_by (levels, 0)

theorem spends_prefixed (turns : Nat) (here : Option TokenKind) : (levels : Nat) →
    Spends turns here 1 24 5 (prefixed turns levels) (Reading.prefixed levels)
  | 0 => by
    unfold prefixed Reading.prefixed
    exact .tooDeep (by decide)
  | levels + 1 => by
    have operand := spends_prefixed turns none levels
    have suffixed (here : Option TokenKind) := spends_suffixed turns here levels
    -- All four signs are read alike, at the same price.
    have unary {kind : TokenKind} (further : kind ≠ .done)
        (judge : Expression → Verdict Expression) := spends_unary further operand judge
    unfold prefixed Reading.prefixed
    refine Spends.startsTypeName.bind (by decide) fun typed => kind fun found => ?_
    cases found with
    | bang => exact (unary (by decide) _).within (by decide) (by decide) (by decide)
    | minus => exact (unary (by decide) _).within (by decide) (by decide) (by decide)
    | star => exact (unary (by decide) _).within (by decide) (by decide) (by decide)
    | ampersand => exact (unary (by decide) _).within (by decide) (by decide) (by decide)
    | sizeofWord =>
      refine (Spends.advance (by decide)).skip (by decide) ?_
      refine Spends.startsTypeName.bind (by decide) fun named => ?_
      split
      · exact spends_typeName.bind (by decide) fun type => .pure _ (by decide) (by decide)
      · refine operand.bind (by decide) fun value => ?_
        exact (Spends.check _).within (by decide) (by decide) (by decide)
    | leftParen =>
      dsimp only
      split
      · refine spends_typeName.bind (by decide) fun target => operand.bind (by decide) fun value => ?_
        exact (Spends.check _).within (by decide) (by decide) (by decide)
      · exact (suffixed _).within (by decide) (by decide) (by decide)
    | _ => exact (suffixed _).within (by decide) (by decide) (by decide)
termination_by levels => (levels, 3)

theorem spends_suffixed (turns : Nat) (here : Option TokenKind) (levels : Nat) :
    Spends turns here 1 26 3 (suffixed turns levels) (Reading.suffixed levels) := by
  unfold suffixed Reading.suffixed
  refine (spends_primary turns here levels).bind (by decide) fun operand => ?_
  exact (spends_furtherSuffixes turns none operand levels).within (by decide) (by decide) (by decide)
termination_by (levels, 2)

theorem spends_furtherSuffixes (turns : Nat) (here : Option TokenKind) (operand : Expression)
    (levels : Nat) :
    Spends turns here 0 (-1) 2 (furtherSuffixes turns operand levels)
      (Reading.furtherSuffixes operand levels) := by
  unfold furtherSuffixes Reading.furtherSuffixes
  refine kind fun found => ?_
  -- Each suffix takes a token before the next one is looked for, which pays for the turn.
  cases found with
  | leftBracket =>
    match levels with
    | 0 => exact .tooDeep (by decide)
    | levels + 1 =>
      refine (Spends.advance (by decide)).skip (by decide) ?_
      refine (spends_expression turns none levels).bind (by decide) fun index => ?_
      refine (Spends.check _).bind (by decide) fun element => ?_
      refine (Spends.expect (by decide)).skip (by decide) ?_
      exact (spends_furtherSuffixes turns none element levels).within (by decide) (by decide)
        (by decide)
  | increment =>
    match levels with
    | 0 => exact .tooDeep (by decide)
    | levels + 1 =>
      exact .judged _ fun stepped => stepped_further (by decide)
        (spends_furtherSuffixes turns none stepped levels)
  | decrement =>
    match levels with
    | 0 => exact .tooDeep (by decide)
    | levels + 1 =>
      exact .judged _ fun stepped => stepped_further (by decide)
        (spends_furtherSuffixes turns none stepped levels)
  | _ => exact .pure _ (by decide) (by decide)
termination_by (levels, 0)

theorem spends_primary (turns : Nat) (here : Option TokenKind) (levels : Nat) :
    Spends turns here 1 27 3 (primary turns levels) (Reading.primary levels) := by
  have inside (here : Option TokenKind) := spends_expression turns here levels
  unfold primary Reading.primary
  refine kind fun found => ?_
  -- Each operand takes one token at least, which pays for the looks of the precedences above.
  cases found with
  | leftParen =>
    refine (Spends.advance (by decide)).skip (by decide) ((inside _).bind (by decide) fun inner => ?_)
    exact (Spends.expect (by decide)).skip (by decide) (.pure _ (by decide) (by decide))
  | character =>
    exact (Spends.advance (by decide)).bind (by decide) fun _ => .pure _ (by decide) (by decide)
  | string =>
    exact (Spends.advance (by decide)).bind (by decide) fun _ => .pure _ (by decide) (by decide)
  | real =>
    exact (Spends.advance (by decide)).bind (by decide) fun _ => .pure _ (by decide) (by decide)
  | integer =>
    exact spends_wholeNumber.bind (by decide) fun _ => .pure _ (by decide) (by decide)
  | identifier =>
    refine spends_name.bind (by decide) fun name => ?_
    refine (Spends.act (Checker.stays_resolve name)).bind (by decide) fun symbol => ?_
    refine kind fun follows => ?_
    split
    · next same =>
      subst same
      refine (Spends.advance (by decide)).skip (by decide) ?_
      refine (spends_callArguments inside).bind (by decide) fun arguments => ?_
      refine (Spends.act fun checker => ?_).bind (by decide) fun call => ?_
      · exact Checker.stays_record _ checker
      · exact (Spends.expect (by decide)).skip (by decide) (.pure _ (by decide) (by decide))
    · exact .look fun reader => .pure _ (by decide) (by decide)
  | _ => exact .unexpected (by decide)
termination_by (levels, 1)

end

/-! Statements. -/

theorem spends_assignment (levels : Nat) :
    Spends turns here 1 17 5 (assignment turns levels) (Reading.assignment levels) := by
  -- The sign of the assignment pays for its right side.
  refine (spends_expression turns here levels).bind (by decide) fun left => kind fun found => ?_
  split
  · next same =>
    subst same
    refine (Spends.advance (by decide)).skip (by decide) ?_
    refine (spends_expression turns none levels).bind (by decide) fun right => ?_
    exact (Spends.check _).within (by decide) (by decide) (by decide)
  · exact .pure _ (by decide) (by decide)

theorem spends_condition (levels : Nat) :
    Spends turns here 3 77 2 (condition turns levels) (Reading.condition levels) := by
  refine (Spends.expect (by decide)).skip (by decide) ?_
  refine (spends_expression turns none levels).bind (by decide) fun value => ?_
  refine (Spends.check _).bind (by decide) fun test => ?_
  exact (Spends.expect (by decide)).skip (by decide) (.pure _ (by decide) (by decide))

/-- A statement takes two tokens at least. -/
theorem spends_statement (turns : Nat) (here : Option TokenKind) : (levels : Nat) →
    Spends turns here 2 46 6 (statement turns levels) (Reading.statement levels)
  | 0 => by
    unfold statement Reading.statement
    exact .tooDeep (by decide)
  | levels + 1 => by
    have value := spends_expression turns none levels
    have inside (here : Option TokenKind) := spends_statement turns here levels
    unfold statement Reading.statement
    refine kind fun found => ?_
    -- The word at the front is taken in each case, so the parts behind it may start anywhere.
    cases found with
    | leftBrace =>
      refine (Spends.advance (by decide)).skip (by decide) ?_
      refine (Spends.act fun _ => Checker.stays_of_eq rfl rfl).bind (by decide) fun scope => ?_
      refine spends_declarations.bind (by decide) fun _ => ?_
      refine (Spends.many (fun found _ => inside found) (by decide) (by decide) (by decide)).bind
        (by decide) fun body => ?_
      refine (Spends.act fun _ => Checker.stays_of_eq rfl rfl).skip (by decide) ?_
      exact (Spends.expect (by decide)).skip (by decide) (.pure _ (by decide) (by decide))
    | breakWord =>
      refine (Spends.advance (by decide)).skip (by decide) (.look fun reader => ?_)
      refine (Spends.check _).bind (by decide) fun leave => ?_
      exact (Spends.expect (by decide)).skip (by decide) (.pure _ (by decide) (by decide))
    | returnWord =>
      refine (Spends.advance (by decide)).skip (by decide) (value.bind (by decide) fun result => ?_)
      refine .look fun reader => (Spends.check _).bind (by decide) fun leave => ?_
      exact (Spends.expect (by decide)).skip (by decide) (.pure _ (by decide) (by decide))
    | whileWord =>
      refine (Spends.advance (by decide)).skip (by decide) ?_
      refine (spends_condition levels).bind (by decide) fun test => ?_
      exact (Spends.insideLoop (inside none)).bind (by decide) fun body =>
        .pure _ (by decide) (by decide)
    | forWord =>
      refine (Spends.advance (by decide)).skip (by decide) ?_
      refine (Spends.expect (by decide)).skip (by decide) ?_
      refine (spends_assignment levels).bind (by decide) fun init => ?_
      refine (Spends.expect (by decide)).skip (by decide) (value.bind (by decide) fun value => ?_)
      refine (Spends.check _).bind (by decide) fun test => ?_
      refine (Spends.expect (by decide)).skip (by decide) ?_
      refine (spends_assignment levels).bind (by decide) fun increment => ?_
      refine (Spends.expect (by decide)).skip (by decide) ?_
      exact (Spends.insideLoop (inside none)).bind (by decide) fun body =>
        .pure _ (by decide) (by decide)
    | ifWord =>
      refine (Spends.advance (by decide)).skip (by decide) ?_
      refine (spends_condition levels).bind (by decide) fun test => ?_
      refine (inside none).bind (by decide) fun body => kind fun follows => ?_
      split
      · next same =>
        subst same
        refine (Spends.advance (by decide)).skip (by decide) ?_
        exact (inside none).bind (by decide) fun otherwise => .pure _ (by decide) (by decide)
      · exact .pure _ (by decide) (by decide)
    | _ =>
      refine (spends_assignment levels).bind (by decide) fun done => ?_
      exact (Spends.expect (by decide)).skip (by decide) (.pure _ (by decide) (by decide))

/-! Units. -/

theorem spends_declarePrototype (name : String) (type : Ty) :
    Spends turns here 0 (-2) 1 (declarePrototype name type)
      (Reading.declarePrototype name type) := by
  refine (Spends.adjust Checker.stays_closeParameters).bind (by decide) fun _ => ?_
  exact (Spends.act (Checker.stays_declareFunction name type)).discard.within (by decide) (by decide)
    (by decide)

theorem spends_globalDeclarator (specifier : Specifier) :
    Spends turns here 1 26 3 (globalDeclarator turns specifier)
      (Reading.globalDeclarator specifier) := by
  refine spends_stars.bind (by decide) fun indirection => ?_
  refine spends_name.bind (by decide) fun name => kind fun found => ?_
  -- The token behind the name has been looked at and is paid for in either case.
  split
  · next same =>
    subst same
    refine (Spends.advance (by decide)).skip (by decide) ?_
    refine (spends_signature _ _).bind (by decide) fun signed => ?_
    refine (spends_declarePrototype _ _).bind (by decide) fun _ => ?_
    exact (Spends.expect (by decide)).discard.within (by decide) (by decide) (by decide)
  · exact (spends_declareObject _ _ _).within (by decide) (by decide) (by decide)

theorem spends_furtherDeclarators (specifier : Specifier) :
    Spends turns here 1 29 3 (furtherDeclarators turns specifier)
      (Reading.furtherDeclarators specifier) := by
  -- There may be no further declarator, but the semicolon is there.
  have each : ∀ found, decide (found = TokenKind.comma) = true →
      Spends turns (some found) 2 57 1
        (do discard (once Reading.advance); globalDeclarator turns specifier)
        (do discard Reading.advance; Reading.globalDeclarator specifier) := by
    intro found same
    obtain rfl := of_decide_eq_true same
    exact (Spends.advance (by decide)).skip (by decide)
      ((spends_globalDeclarator specifier).within (by decide) (by decide) (by decide))
  refine (Spends.many each (by decide) (by decide) (by decide)).skip (by decide) ?_
  exact (Spends.expect (by decide)).discard.within (by decide) (by decide) (by decide)

theorem spends_functionBody (name : String) (type : Ty) (scope : ScopeId) :
    Spends turns here 2 55 4 (functionBody turns name type scope)
      (Reading.functionBody name type scope) := by
  -- The statements run on the levels of the reader at the start, and a function of an erroneous type
  -- is begun without its result.
  refine .look fun reader => ?_
  have rest (here : Option TokenKind) : Spends turns here 2 56 3
      (do let symbol ← once (Reading.act (Checker.defineFunction name type))
          discard (expect .leftBrace)
          declarations turns
          let body ← whileAt (· ≠ .rightBrace) (statement turns reader.limit) turns
          let closing ← once (Reading.act Checker.closeScope)
          discard (expect .rightBrace)
          return ⟨symbol, (reader.checker.symbols.symbolsOf scope).length, closing, body⟩ :
        Metered Function)
      (do let symbol ← Reading.act (Checker.defineFunction name type)
          discard (Reading.expect .leftBrace)
          Reading.declarations
          let body ← Reading.many (· ≠ .rightBrace) (Reading.statement reader.limit)
          let closing ← Reading.act Checker.closeScope
          discard (Reading.expect .rightBrace)
          return ⟨symbol, (reader.checker.symbols.symbolsOf scope).length, closing, body⟩) := by
    refine (Spends.act (Checker.stays_defineFunction name type)).bind (by decide) fun symbol => ?_
    refine (Spends.expect (by decide)).skip (by decide) ?_
    refine spends_declarations.bind (by decide) fun _ => ?_
    refine (Spends.many (fun found _ => spends_statement turns _ _) (by decide) (by decide)
      (by decide)).bind (by decide) fun body => ?_
    refine (Spends.act fun _ => Checker.stays_of_eq rfl rfl).bind (by decide) fun closing => ?_
    exact (Spends.expect (by decide)).skip (by decide) (.pure _ (by decide) (by decide))
  dsimp only
  cases type.specifier? with
  | none => exact (rest here).within (by decide) (by decide) (by decide)
  | some specifier =>
    have begins : Spends turns here 0 (-1) 0
        (once (Reading.adjust (·.beginFunction (.scalar specifier type.indirection))))
        (Reading.adjust (·.beginFunction (.scalar specifier type.indirection))) :=
      Spends.adjust fun _ => Checker.stays_of_eq rfl rfl
    exact begins.bind (by decide) fun _ => (rest none).within (by decide) (by decide) (by decide)

/-- What stands at the top of a unit takes three tokens at least. -/
theorem spends_topLevel : Spends turns here 3 85 2 (topLevel turns) Reading.topLevel := by
  refine spends_specifier.bind (by decide) fun specifier => ?_
  refine spends_stars.bind (by decide) fun indirection => ?_
  refine spends_name.bind (by decide) fun name => kind fun found => ?_
  -- Further declarators follow an object and a prototype alike.
  have further {least : Nat} {gain loss : Int} (fewer : least ≤ 1) (cheaper : gain ≤ 29)
      (fits : 3 ≤ loss) : Spends turns none least gain loss
        (do furtherDeclarators turns specifier; return none : Metered (Option Function))
        (do Reading.furtherDeclarators specifier; return none) :=
    Spends.within ((spends_furtherDeclarators specifier).bind (by decide)
      fun _ => .pure _ (by decide) (by decide)) fewer cheaper fits
  split
  · next same =>
    subst same
    refine (Spends.advance (by decide)).skip (by decide) ?_
    refine (spends_signature _ _).bind (by decide) fun signed => ?_
    refine (Spends.expect (by decide)).skip (by decide) (kind fun next => ?_)
    split
    · exact (spends_functionBody _ _ _).bind (by decide) fun function =>
        .pure _ (by decide) (by decide)
    · exact (spends_declarePrototype _ _).bind (by decide) fun _ =>
        further (by decide) (by decide) (by decide)
  · exact (spends_declareObject _ _ _).bind (by decide) fun _ =>
      further (by decide) (by decide) (by decide)

end Metered

end SmallC
