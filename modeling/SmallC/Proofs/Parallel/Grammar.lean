import SmallC.Proofs.Parallel.Reading

/-! The grammar side by side: no declaration, expression or statement that is read can tell which of
two readings it belongs to. -/

namespace SmallC

namespace Reading

open Pairing (Agree)

variable {pairing : Pairing} {α β : Type} {good : α → β → Prop}

section Declarations

variable (lawful : pairing.Lawful)

include lawful

theorem agree_name : pairing.Agree name name pairing.name :=
  (Agree.expect lawful _).bind fun _ _ found => .pure (lawful.spelled found.2 found.1)

theorem agree_wholeNumber : pairing.Agree wholeNumber wholeNumber Eq := by
  refine (Agree.expect lawful _).bind fun token other found => ?_
  obtain ⟨integer, alike⟩ := found
  -- A whole number has one spelling on both sides, and so one value.
  rw [lawful.digits alike integer, lawful.line alike]
  split
  · exact .pure rfl
  · exact .fail (lawful.outOfRange _ _)

theorem agree_specifier : pairing.Agree specifier specifier Eq := by
  refine .kind lawful fun found => ?_
  cases found with
  | specifier found => exact (Agree.advance lawful).discard.skip fun _ _ => .pure rfl
  | _ => exact .unexpected lawful

theorem agree_stars : pairing.Agree stars stars Eq :=
  (Agree.many lawful _ (Agree.advance lawful)).bind fun _ _ found => .pure found.length_eq

theorem agree_arrayLength :
    pairing.Agree arrayLength arrayLength Eq := by
  refine Agree.get.bind fun left right readers => (agree_wholeNumber lawful).same fun length => ?_
  split
  · exact .fail (lawful.unexpected readers.current).2
  · exact .pure rfl

theorem agree_arrayType (specifier : Specifier) (indirection : Nat) {name other : String}
    (named : pairing.name name other) :
    pairing.Agree (arrayType specifier indirection name) (arrayType specifier indirection other)
      Eq := by
  refine (Agree.expect lawful _).discard.skip fun _ _ => Agree.get.bind fun left right readers => ?_
  refine (agree_arrayLength lawful).same fun length => ?_
  refine (Agree.expect lawful _).discard.skip fun _ _ => ?_
  -- The size is refused on both sides or on neither, at the line of tokens that are alike.
  cases Ty.sizedArray? specifier indirection length with
  | some type => exact .pure rfl
  | none =>
    rw [lawful.line readers.current]
    exact .fail (lawful.tooLarge _ named)

theorem agree_declareObject (specifier : Specifier) (indirection : Nat) {name other : String}
    (named : pairing.name name other) :
    pairing.Agree (declareObject specifier indirection name)
      (declareObject specifier indirection other) fun _ _ => True := by
  have typed : pairing.Agree (variableType specifier indirection name)
      (variableType specifier indirection other) Eq := by
    refine .kind lawful fun found => ?_
    split
    · exact agree_arrayType lawful specifier indirection named
    · exact .pure rfl
  refine typed.same fun type => ?_
  exact (Agree.act (lawful.declares type named)).discard

theorem agree_declarations : pairing.Agree declarations declarations fun _ _ => True := by
  have declarator (specifier : Specifier) :
      pairing.Agree (declarator specifier) (declarator specifier) fun _ _ => True := by
    refine (agree_stars lawful).same fun indirection => ?_
    exact (agree_name lawful).bind fun _ _ named => agree_declareObject lawful _ _ named
  have declaration : pairing.Agree declaration declaration fun _ _ => True := by
    refine (agree_specifier lawful).same fun specifier => ?_
    exact (Agree.commaSeparated lawful (declarator specifier)).discard.skip fun _ _ =>
      (Agree.expect lawful _).discard
  exact (Agree.many lawful _ declaration).discard

theorem agree_parameter : pairing.Agree parameter parameter Eq := by
  refine (agree_specifier lawful).same fun specifier => ?_
  refine (agree_stars lawful).same fun indirection => ?_
  exact (agree_name lawful).bind fun _ _ named =>
    (Agree.act (lawful.declares _ named)).discard.skip fun _ _ => .pure rfl

theorem agree_furtherParameters {clock ticks : List Token} (long : ticks.length = clock.length) :
    pairing.Agree (furtherParameters clock) (furtherParameters ticks)
      Eq := by
  -- The clocks tick together, once for each parameter.
  induction clock generalizing ticks with
  | nil =>
    obtain rfl := List.eq_nil_of_length_eq_zero long
    refine .kind lawful fun found => ?_
    split
    · exact .unexpected lawful
    · exact .pure rfl
  | cons _ clock ih =>
    cases ticks with
    | nil => cases long
    | cons _ ticks =>
      refine .kind lawful fun found => ?_
      split
      · refine (Agree.advance lawful).discard.skip fun _ _ => .kind lawful fun next => ?_
        split
        · exact (Agree.advance lawful).discard.skip fun _ _ => .pure rfl
        · refine (agree_parameter lawful).same fun first => ?_
          refine (ih (Nat.succ.inj long)).same fun others => ?_
          exact .pure rfl
      · exact .pure rfl

theorem agree_signature (specifier : Specifier) (indirection : Nat) :
    pairing.Agree (signature specifier indirection) (signature specifier indirection)
      fun found other => other.1 = found.1 ∧ pairing.scope found.2 other.2 := by
  -- The clocks of further parameters are the remaining tokens, which are alike.
  have list : pairing.Agree parameterList parameterList Eq := by
    refine .kind lawful fun found => ?_
    split
    · exact (Agree.advance lawful).discard.skip fun _ _ => .pure rfl
    · refine (agree_parameter lawful).same fun first => ?_
      refine Agree.get.bind fun _ _ readers =>
        (agree_furtherParameters lawful readers.remaining).same fun others => ?_
      exact .pure rfl
  refine (Agree.act lawful.opens).bind fun scope other opened => list.same fun parameters => ?_
  exact .pure ⟨rfl, opened⟩

end Declarations

theorem agree_startsTypeName (lawful : pairing.Lawful) :
    pairing.Agree startsTypeName startsTypeName Eq := by
  refine Agree.get.bind fun left right readers => .pure ?_
  obtain ⟨current, rest, checker, limit⟩ := left
  obtain ⟨other, others, known, bound⟩ := right
  obtain ⟨here, after, -, -⟩ := readers
  -- The answer looks at two kinds: that of the token in hand and that of the next one.
  cases after with
  | nil => simp
  | cons next after => simp [show other.kind = current.kind from lawful.kind here, lawful.kind next]

theorem agree_typeName (lawful : pairing.Lawful) : pairing.Agree typeName typeName Eq := by
  refine (Agree.expect lawful _).discard.skip fun _ _ => ?_
  refine (agree_specifier lawful).same fun specifier => ?_
  refine (agree_stars lawful).same fun indirection => ?_
  exact (Agree.expect lawful _).discard.skip fun _ _ => .pure rfl

/-- Operands that are read alike are judged alike behind their operator. -/
theorem agree_unary (lawful : pairing.Lawful) {operand other : Reading Expression}
    (alike : pairing.Agree operand other pairing.expression)
    (judge : Expression → Verdict Expression) :
    pairing.Agree (do discard advance; check (judge (← operand)))
      (do discard advance; check (judge (← other))) pairing.expression :=
  (Agree.advance lawful).discard.skip fun _ _ => alike.bind fun _ _ holds =>
    .check (lawful.judged holds judge)

mutual

theorem agree_expression (lawful : pairing.Lawful) : (levels more : Nat) →
    pairing.levels levels more →
    pairing.Agree (expression levels) (expression more) pairing.expression
  | 0, _, depth => by
    unfold expression
    exact .noLevel lawful depth (by rintro rfl; rfl)
  | levels + 1, _, depth => by
    -- One level is spent on each side, and what is left of them still corresponds.
    obtain ⟨more, rfl, below⟩ := lawful.lower depth
    unfold expression
    exact agree_operation lawful Tier.all levels more below
termination_by levels => (levels, 0)

theorem agree_operation (lawful : pairing.Lawful) : (tiers : List Tier) → (levels more : Nat) →
    pairing.levels levels more →
    pairing.Agree (operation tiers levels) (operation tiers more) pairing.expression
  | [], levels, more, depth => by
    unfold operation
    exact agree_prefixed lawful levels more depth
  | tier :: tighter, levels, more, depth => by
    unfold operation
    exact (agree_operation lawful tighter levels more depth).bind fun _ _ left =>
      agree_furtherOperands lawful tier tighter levels more depth left
termination_by tiers levels => (levels, tiers.length + 4)

theorem agree_furtherOperands (lawful : pairing.Lawful) (tier : Tier) (tighter : List Tier)
    (levels more : Nat) (depth : pairing.levels levels more) {left other : Expression}
    (first : pairing.expression left other) :
    pairing.Agree (furtherOperands tier tighter left levels)
      (furtherOperands tier tighter other more) pairing.expression := by
  unfold furtherOperands
  -- The kind of the token says on both sides whether the chain goes on, and every link is a level.
  refine .kind lawful fun found => ?_
  cases tier.rule? found with
  | none => exact .pure first
  | some rule =>
    match levels with
    | 0 => exact .noLevel lawful depth (by rintro rfl; rfl)
    | levels + 1 =>
      obtain ⟨more, rfl, below⟩ := lawful.lower depth
      refine (Agree.advance lawful).discard.skip fun _ _ => ?_
      refine (agree_operation lawful tighter levels more below).bind fun _ _ second => ?_
      refine (Agree.check (lawful.judgedBoth first second rule)).bind fun _ _ joined => ?_
      exact agree_furtherOperands lawful tier tighter levels more below joined
termination_by (levels, 0)

theorem agree_prefixed (lawful : pairing.Lawful) : (levels more : Nat) →
    pairing.levels levels more →
    pairing.Agree (prefixed levels) (prefixed more) pairing.expression
  | 0, _, depth => by
    unfold prefixed
    exact .noLevel lawful depth (by rintro rfl; rfl)
  | levels + 1, _, depth => by
    obtain ⟨more, rfl, below⟩ := lawful.lower depth
    have operand := agree_prefixed lawful levels more below
    have suffixed := agree_suffixed lawful levels more below
    unfold prefixed
    -- Whether a type follows is looked up first, for a parenthesis may open either.
    refine (agree_startsTypeName lawful).same fun typed => ?_
    refine .kind lawful fun found => ?_
    cases found with
    | bang => exact agree_unary lawful operand _
    | minus => exact agree_unary lawful operand _
    | star => exact agree_unary lawful operand _
    | ampersand => exact agree_unary lawful operand _
    | sizeofWord =>
      refine (Agree.advance lawful).discard.skip fun _ _ => (agree_startsTypeName lawful).same fun named => ?_
      split
      · refine (agree_typeName lawful).same fun type => ?_
        exact .pure (lawful.itself _)
      · exact operand.bind fun _ _ holds => .check (lawful.judged holds _)
    | leftParen =>
      dsimp only
      split
      · refine (agree_typeName lawful).same fun target => ?_
        exact operand.bind fun _ _ holds => .check (lawful.judged holds _)
      · exact suffixed
    | _ => exact suffixed
termination_by levels => (levels, 3)

theorem agree_suffixed (lawful : pairing.Lawful) (levels more : Nat)
    (depth : pairing.levels levels more) :
    pairing.Agree (suffixed levels) (suffixed more) pairing.expression := by
  unfold suffixed
  exact (agree_primary lawful levels more depth).bind fun _ _ operand =>
    agree_furtherSuffixes lawful levels more depth operand
termination_by (levels, 2)

theorem agree_furtherSuffixes (lawful : pairing.Lawful) (levels more : Nat)
    (depth : pairing.levels levels more) {operand other : Expression}
    (alike : pairing.expression operand other) :
    pairing.Agree (furtherSuffixes operand levels) (furtherSuffixes other more)
      pairing.expression := by
  -- Both steps are read alike, whatever follows them.
  have stepped (levels more : Nat) (op : StepOp)
      (further : ∀ {operand other : Expression}, pairing.expression operand other →
        pairing.Agree (furtherSuffixes operand levels) (furtherSuffixes other more)
          pairing.expression) :
      pairing.Agree
        (do let operand ← check (checkStep op operand)
            discard advance
            furtherSuffixes operand levels)
        (do let operand ← check (checkStep op other)
            discard advance
            furtherSuffixes operand more) pairing.expression :=
    (Agree.check (lawful.judged alike _)).bind fun _ _ stepped =>
      (Agree.advance lawful).discard.skip fun _ _ => further stepped
  unfold furtherSuffixes
  refine .kind lawful fun found => ?_
  cases found with
  | leftBracket =>
    match levels with
    | 0 => exact .noLevel lawful depth (by rintro rfl; rfl)
    | levels + 1 =>
      obtain ⟨more, rfl, below⟩ := lawful.lower depth
      refine (Agree.advance lawful).discard.skip fun _ _ => ?_
      refine (agree_expression lawful levels more below).bind fun _ _ index => ?_
      refine (Agree.check (lawful.judgedBoth alike index checkSubscript)).bind fun _ _ element => ?_
      exact (Agree.expect lawful _).discard.skip fun _ _ =>
        agree_furtherSuffixes lawful levels more below element
  | increment =>
    match levels with
    | 0 => exact .noLevel lawful depth (by rintro rfl; rfl)
    | levels + 1 =>
      obtain ⟨more, rfl, below⟩ := lawful.lower depth
      exact stepped levels more _ (agree_furtherSuffixes lawful levels more below)
  | decrement =>
    match levels with
    | 0 => exact .noLevel lawful depth (by rintro rfl; rfl)
    | levels + 1 =>
      obtain ⟨more, rfl, below⟩ := lawful.lower depth
      exact stepped levels more _ (agree_furtherSuffixes lawful levels more below)
  | _ => exact .pure alike
termination_by (levels, 0)

theorem agree_primary (lawful : pairing.Lawful) (levels more : Nat)
    (depth : pairing.levels levels more) :
    pairing.Agree (primary levels) (primary more) pairing.expression := by
  have inside := agree_expression lawful levels more depth
  unfold primary
  refine .known lawful fun found left right readers here => ?_
  -- What a token spells depends on its kind, which is that of the token in hand.
  have constant (read : String → Expression) (spells : found ≠ .identifier) :
      pairing.Results pairing.expression ((do return read (← advance).text : Reading _) left)
        ((do return read (← advance).text : Reading _) right) :=
    .ok (lawful.constant readers.current (here ▸ spells) read) (readers.step lawful)
  cases found with
  | leftParen =>
    refine ((Agree.advance lawful).discard.skip fun _ _ => inside.bind fun _ _ inner => ?_)
      left right readers
    exact (Agree.expect lawful _).discard.skip fun _ _ => .pure inner
  | character => exact constant (fun text => .int (characterValue text)) nofun
  | string => exact constant (fun text => .string (unescape text)) nofun
  | integer =>
    refine ((agree_wholeNumber lawful).same fun value => ?_) left right readers
    exact .pure (lawful.itself _)
  | real => exact constant .real nofun
  | identifier =>
    refine ((agree_name lawful).bind fun _ _ named => ?_) left right readers
    refine (Agree.act (lawful.resolves named)).bind fun symbol other found => ?_
    -- Behind the name a parenthesis opens the arguments of a call.
    refine .kind lawful fun next => ?_
    split
    · refine (Agree.advance lawful).discard.skip fun _ _ => ?_
      have arguments : pairing.Agree (callArguments (expression levels))
          (callArguments (expression more)) (List.Forall₂ pairing.expression) := by
        refine .kind lawful fun next => ?_
        split
        · exact .pure .nil
        · exact .commaSeparated lawful inside
      refine arguments.bind fun _ _ each => (Agree.act (lawful.calls found each)).bind ?_
      exact fun _ _ call => (Agree.expect lawful _).discard.skip fun _ _ => .pure call
    · exact Agree.get.bind fun _ _ readers => .pure (lawful.identifier readers.checker found)
  | _ => exact Agree.unexpected lawful left right readers
termination_by (levels, 1)

end

theorem agree_assignment (lawful : pairing.Lawful) {levels more : Nat}
    (depth : pairing.levels levels more) :
    pairing.Agree (assignment levels) (assignment more) pairing.statement := by
  have inside := agree_expression lawful levels more depth
  refine inside.bind fun _ _ left => .kind lawful fun found => ?_
  split
  · refine (Agree.advance lawful).discard.skip fun _ _ => ?_
    exact inside.bind fun _ _ right => .check (lawful.assigned left right)
  · exact .pure (lawful.evaluate left)

theorem agree_condition (lawful : pairing.Lawful) {levels more : Nat}
    (depth : pairing.levels levels more) :
    pairing.Agree (condition levels) (condition more) pairing.expression := by
  refine (Agree.expect lawful _).discard.skip fun _ _ => ?_
  refine (agree_expression lawful levels more depth).bind fun _ _ value => ?_
  refine (Agree.check (lawful.judged value checkTest)).bind fun _ _ test => ?_
  exact (Agree.expect lawful _).discard.skip fun _ _ => .pure test

theorem agree_statement (lawful : pairing.Lawful) : (levels more : Nat) →
    pairing.levels levels more →
    pairing.Agree (statement levels) (statement more) pairing.statement
  | 0, _, depth => by
    unfold statement
    exact .noLevel lawful depth (by rintro rfl; rfl)
  | levels + 1, _, depth => by
    obtain ⟨more, rfl, below⟩ := lawful.lower depth
    have inside := agree_statement lawful levels more below
    have assigned := agree_assignment lawful below
    have tested := agree_condition lawful below
    unfold statement
    -- The kind of the first token chooses the same production on both sides.
    refine .kind lawful fun found => ?_
    cases found with
    | leftBrace =>
      refine (Agree.advance lawful).discard.skip fun _ _ => ?_
      refine (Agree.act lawful.opens).bind fun _ _ opened => ?_
      refine (agree_declarations lawful).skip fun _ _ => ?_
      refine (Agree.many lawful _ inside).bind fun _ _ body => ?_
      refine (Agree.act lawful.closes).discard.skip fun _ _ => ?_
      exact (Agree.expect lawful _).discard.skip fun _ _ => .pure (lawful.block opened body)
    | breakWord =>
      refine (Agree.advance lawful).discard.skip fun _ _ => ?_
      refine Agree.get.bind fun _ _ readers => ?_
      refine (Agree.check (lawful.broken readers.checker)).bind fun _ _ leave => ?_
      exact (Agree.expect lawful _).discard.skip fun _ _ => .pure leave
    | returnWord =>
      refine (Agree.advance lawful).discard.skip fun _ _ => ?_
      refine (agree_expression lawful levels more below).bind fun _ _ value => ?_
      refine Agree.get.bind fun _ _ readers => ?_
      refine (Agree.check (lawful.returned readers.checker value)).bind fun _ _ leave => ?_
      exact (Agree.expect lawful _).discard.skip fun _ _ => .pure leave
    | whileWord =>
      refine (Agree.advance lawful).discard.skip fun _ _ => tested.bind fun _ _ test => ?_
      exact (Agree.insideLoop lawful inside).bind fun _ _ body => .pure (lawful.whileLoop test body)
    | forWord =>
      refine (Agree.advance lawful).discard.skip fun _ _ => ?_
      refine (Agree.expect lawful _).discard.skip fun _ _ => assigned.bind fun _ _ init => ?_
      refine (Agree.expect lawful _).discard.skip fun _ _ => ?_
      refine (agree_expression lawful levels more below).bind fun _ _ value => ?_
      refine (Agree.check (lawful.judged value checkTest)).bind fun _ _ test => ?_
      refine (Agree.expect lawful _).discard.skip fun _ _ => assigned.bind fun _ _ increment => ?_
      refine (Agree.expect lawful _).discard.skip fun _ _ => ?_
      refine (Agree.insideLoop lawful inside).bind fun _ _ body => ?_
      exact .pure (lawful.forLoop init test increment body)
    | ifWord =>
      refine (Agree.advance lawful).discard.skip fun _ _ => tested.bind fun _ _ test => ?_
      refine inside.bind fun _ _ body => .kind lawful fun next => ?_
      split
      · refine (Agree.advance lawful).discard.skip fun _ _ => inside.bind fun _ _ otherwise => ?_
        exact .pure (lawful.ifElse test body otherwise)
      · exact .pure (lawful.ifThen test body)
    | _ =>
      exact assigned.bind fun _ _ done => (Agree.expect lawful _).discard.skip fun _ _ => .pure done

theorem agree_declarePrototype (lawful : pairing.Lawful) {name other : String} (type : Ty)
    (named : pairing.name name other) :
    pairing.Agree (declarePrototype name type) (declarePrototype other type) fun _ _ => True :=
  (Agree.adjust lawful.forgets).skip fun _ _ => (Agree.act (lawful.prototype type named)).discard

theorem agree_furtherDeclarators (lawful : pairing.Lawful) (specifier : Specifier) :
    pairing.Agree (furtherDeclarators specifier) (furtherDeclarators specifier)
      fun _ _ => True := by
  have declarator : pairing.Agree (globalDeclarator specifier) (globalDeclarator specifier)
      fun _ _ => True := by
    refine (agree_stars lawful).same fun indirection => (agree_name lawful).bind fun _ _ named => ?_
    refine .kind lawful fun found => ?_
    split
    · refine (Agree.advance lawful).discard.skip fun _ _ => ?_
      refine (agree_signature lawful specifier indirection).bind ?_
      rintro ⟨type, scope⟩ ⟨_, closed⟩ ⟨rfl, -⟩
      exact (agree_declarePrototype lawful _ named).skip fun _ _ =>
        (Agree.expect lawful _).discard
    · exact agree_declareObject lawful _ _ named
  exact (Agree.many lawful _ ((Agree.advance lawful).discard.skip fun _ _ => declarator)).discard.skip
    fun _ _ => (Agree.expect lawful _).discard

theorem agree_functionBody (lawful : pairing.Lawful) {name other : String} (type : Ty)
    {scope closed : ScopeId} (named : pairing.name name other) (scopes : pairing.scope scope closed) :
    pairing.Agree (functionBody name type scope) (functionBody other type closed)
      pairing.function := by
  refine Agree.get.bind fun left right readers => ?_
  -- The parameters are counted before the body, in the checkers that are there now.
  have rest : pairing.Agree
      (do let symbol ← act (Checker.defineFunction name type)
          discard (expect .leftBrace)
          declarations
          let body ← many (· ≠ .rightBrace) (statement left.limit)
          let closing ← act Checker.closeScope
          discard (expect .rightBrace)
          return ⟨symbol, (left.checker.symbols.symbolsOf scope).length, closing, body⟩)
      (do let symbol ← act (Checker.defineFunction other type)
          discard (expect .leftBrace)
          declarations
          let body ← many (· ≠ .rightBrace) (statement right.limit)
          let closing ← act Checker.closeScope
          discard (expect .rightBrace)
          return ⟨symbol, (right.checker.symbols.symbolsOf closed).length, closing, body⟩)
      pairing.function := by
    refine (Agree.act (lawful.definition type named)).bind fun _ _ symbol => ?_
    refine (Agree.expect lawful _).discard.skip fun _ _ => ?_
    refine (agree_declarations lawful).skip fun _ _ => ?_
    refine (Agree.many lawful _ (agree_statement lawful _ _ readers.limit)).bind fun _ _ body => ?_
    refine (Agree.act lawful.closes).bind fun _ _ closing => ?_
    refine (Agree.expect lawful _).discard.skip fun _ _ => .pure ?_
    exact lawful.function readers.checker scopes symbol closing body
  dsimp only
  cases type.specifier? with
  | none => exact rest
  | some specifier =>
    exact (Agree.adjust (lawful.begins (.scalar specifier type.indirection))).skip fun _ _ => rest

/-- What stands at the top of a unit is read alike, whether it is a function or not. -/
theorem agree_topLevel (lawful : pairing.Lawful) :
    pairing.Agree topLevel topLevel (Option.Rel pairing.function) := by
  refine (agree_specifier lawful).same fun specifier => (agree_stars lawful).same fun indirection => ?_
  refine (agree_name lawful).bind fun name other named => .kind lawful fun found => ?_
  -- Behind an object and behind a prototype the same declarators may follow.
  have further : pairing.Agree (do furtherDeclarators specifier; return none)
      (do furtherDeclarators specifier; return none) (Option.Rel pairing.function) :=
    (agree_furtherDeclarators lawful specifier).skip fun _ _ => .pure .none
  split
  · refine (Agree.advance lawful).discard.skip fun _ _ => ?_
    refine (agree_signature lawful specifier indirection).bind ?_
    rintro ⟨type, scope⟩ ⟨_, closed⟩ ⟨rfl, scopes⟩
    refine (Agree.expect lawful _).discard.skip fun _ _ => .kind lawful fun next => ?_
    split
    · exact (agree_functionBody lawful _ named scopes).bind fun _ _ function =>
        .pure (.some function)
    · exact (agree_declarePrototype lawful _ named).skip fun _ _ => further
  · exact (agree_declareObject lawful _ _ named).skip fun _ _ => further

end Reading

namespace Pairing

variable {pairing : Pairing} {σ τ : Type} {good : σ → τ → Prop}

/-- Consumers that keep up with each other when functions that correspond are handed on, wherever
the first side is sure of its function. -/
def ConsumesWhere (pairing : Pairing) (sure : Function → SymbolTable → σ → Prop) (first : Consumer σ)
    (second : Consumer τ) (good : σ → τ → Prop) : Prop :=
  ∀ left right function other output result, pairing.checker left right →
    pairing.function function other → good output result → sure function left.symbols output →
    let one := first function left.symbols output
    let two := second other right.symbols result
    good one.2 two.2 ∧
      pairing.checker { left with symbols := one.1 } { right with symbols := two.1 }

/-- Consumers that keep up with each other when functions that correspond are handed on. -/
def Consumes (pairing : Pairing) (first : Consumer σ) (second : Consumer τ) (good : σ → τ → Prop) :
    Prop :=
  ∀ left right function other output result, pairing.checker left right →
    pairing.function function other → good output result →
    let one := first function left.symbols output
    let two := second other right.symbols result
    good one.2 two.2 ∧
      pairing.checker { left with symbols := one.1 } { right with symbols := two.1 }

/-- Units that have both been read to their ends, or have both failed alike. -/
structure Ends (pairing : Pairing) (good : σ → τ → Prop) (one : Outcome σ) (two : Outcome τ) :
    Prop where
  /-- What was built of the functions corresponds. -/
  output : good one.output two.output
  /-- Both failed alike, or none did. -/
  failure : Option.Rel pairing.failure one.failure? two.failure?
  /-- The checkers correspond where none did. -/
  checker : one.failure? = none → pairing.checker one.reader.checker two.reader.checker

/-- Where failures that correspond are the same, both have failed for the same reason, if at all. -/
theorem Ends.failure_eq {one : Outcome σ} {two : Outcome τ} (ends : pairing.Ends good one two)
    (same : pairing.failure = Eq) : two.failure? = one.failure? := by
  have failures := ends.failure
  rw [same] at failures
  generalize one.failure? = failed, two.failure? = fault at failures
  cases failures with
  | none => rfl
  | some equal => rw [equal]

/-- Where the first unit has been read to its end, the second has. -/
theorem Ends.done {one : Outcome σ} {two : Outcome τ} (ends : pairing.Ends good one two)
    (done : one.failure? = none) : two.failure? = none := by
  have failures := ends.failure
  rw [done] at failures
  generalize two.failure? = fault at failures
  cases failures
  rfl

end Pairing

/-- Reading has stopped because no level of nesting was left. -/
def Outcome.Exhausted {σ : Type} (outcome : Outcome σ) : Prop :=
  ∃ line limit, outcome.failure? = some (.tooDeep line limit)

/-- Every function that reading declarations hands on is one to be sure of. -/
def HandsOn {σ : Type} (consume : Consumer σ) (sure : Function → SymbolTable → σ → Prop) :
    (clock : List Token) → Reader → σ → Prop
  | [], _, _ => True
  | _ :: clock, reader, output => reader.current.kind ≠ .done →
    (∀ next, Reading.topLevel reader = .ok none next → HandsOn consume sure clock next output) ∧
      ∀ function next, Reading.topLevel reader = .ok (some function) next →
        let consumed := consume function next.checker.symbols output
        sure function next.checker.symbols output ∧ HandsOn consume sure clock
          { next with checker := { next.checker with symbols := consumed.1 } } consumed.2

namespace Pairing

variable {pairing : Pairing} {σ τ : Type} {good : σ → τ → Prop}

/-- Declarations are read alike up to the same end, unless the first side runs out of levels. -/
theorem ends_readDeclarations (lawful : pairing.Lawful) {sure : Function → SymbolTable → σ → Prop}
    {first : Consumer σ} {second : Consumer τ}
    (consumes : pairing.ConsumesWhere sure first second good) {clock ticks : List Token}
    (long : ticks.length = clock.length) {left right : Reader} (readers : pairing.Readers left right)
    {output : σ} {result : τ} (holds : good output result)
    (handed : HandsOn first sure clock left output) :
    (pairing.lenient ∧ (readDeclarations first clock left output).Exhausted) ∨
      pairing.Ends good (readDeclarations first clock left output)
        (readDeclarations second ticks right result) := by
  -- Both clocks run alike, and each declaration leaves readers that correspond.
  induction clock generalizing ticks left right output result with
  | nil =>
    obtain rfl := List.eq_nil_of_length_eq_zero long
    simp only [readDeclarations, lawful.kind readers.current]
    split
    · exact .inr ⟨holds, .none, fun _ => readers.checker⟩
    · exact .inr ⟨holds, .some (lawful.unexpected readers.current).1, nofun⟩
  | cons _ clock ih =>
    cases ticks with
    | nil => cases long
    | cons _ ticks =>
      simp only [readDeclarations, lawful.kind readers.current]
      split
      · exact .inr ⟨holds, .none, fun _ => readers.checker⟩
      · next further =>
        obtain ⟨quietly, handing⟩ := handed further
        have read := Reading.agree_topLevel lawful left right readers
        generalize Reading.topLevel left = one, Reading.topLevel right = two at read quietly handing ⊢
        cases read with
        | error alike => exact .inr ⟨holds, .some alike, nofun⟩
        | spent permitted => exact .inl ⟨permitted, _, _, rfl⟩
        | ok found between =>
          cases found with
          | none => exact ih (Nat.succ.inj long) between holds (quietly _ rfl)
          | some function =>
            obtain ⟨known, onwards⟩ := handing _ _ rfl
            obtain ⟨built, checker⟩ := consumes _ _ _ _ _ _ between.checker function holds known
            exact ih (Nat.succ.inj long) (between.adopt checker) built onwards

/-- Units of tokens that correspond start with readers that do. -/
theorem Readers.before (lawful : pairing.Lawful) {tokens others : List Token}
    (alike : List.Forall₂ pairing.token tokens others) {limit more : Nat}
    (depth : pairing.levels limit more) :
    pairing.Readers (.before tokens limit {}) (.before others more {}) :=
  .step lawful ⟨lawful.origin, alike, lawful.fresh, depth⟩

/-- Whatever is handed on, one may be sure of nothing. -/
theorem handsOn_anything (consume : Consumer σ) (clock : List Token) (reader : Reader) (output : σ) :
    HandsOn consume (fun _ _ _ => True) clock reader output := by
  induction clock generalizing reader output with
  | nil => trivial
  | cons _ clock ih => exact fun _ => ⟨fun _ _ => ih _ _, fun _ _ _ => ⟨trivial, ih _ _⟩⟩

/-- Units of tokens that correspond are read alike. -/
theorem ends_readUnit (strict : pairing.Strict) {first : Consumer σ} {second : Consumer τ}
    (consumes : pairing.Consumes first second good) {tokens others : List Token}
    (alike : List.Forall₂ pairing.token tokens others) (limit : Nat) {output : σ} {result : τ}
    (holds : good output result) :
    pairing.Ends good (readUnit first tokens limit output) (readUnit second others limit result) := by
  have readers := Readers.before strict.toLawful alike (strict.same limit)
  have every : pairing.ConsumesWhere (fun _ _ _ => True) first second good :=
    fun _ _ _ _ _ _ checkers functions holds _ => consumes _ _ _ _ _ _ checkers functions holds
  exact (ends_readDeclarations strict.toLawful every readers.remaining readers holds
    (handsOn_anything ..)).resolve_left fun spent => strict.strict spent.1

end Pairing

end SmallC
