import SmallC.Proofs.Sizes.Exact
import SmallC.Proofs.Sizes.Stops

/-! Refused arrays: wherever a unit declares an array that takes too much, reading stops there. -/

namespace SmallC

/-! Points of a source where something is declared. -/

/-- What a point of a source is inside of. -/
inductive Region where
  /-- What stands at the top of a unit. -/
  | unit
  /-- Declarations and then statements, behind an opening brace. -/
  | block
  /-- A statement. -/
  | statement

/-- Where the next item of a list with commas starts. -/
inductive Turn {α : Type} (item : List Token → α → List Token → Prop) :
    List Token → List Token → Prop where
  /-- The first item starts with the list. -/
  | first (start : List Token) : Turn item start start
  /-- Another one starts behind a comma. -/
  | later {start rest : List Token} {things : List α} {comma : Token}
    (before : Commas item start things (comma :: rest)) (separated : comma.kind = .comma) :
    Turn item start rest

/-- From the one point on, all that stands before the other one is of the grammar, and there a name is
declared with the specifier. -/
inductive Awaits (specifier : Specifier) : Region → List Token → List Token → Prop where
  /-- A name of the unit. -/
  | global {tokens header start : List Token} {globals : List Global} {word : Token}
    (before : Run Global.Derives tokens globals (word :: header))
    (specified : word.kind = .specifier specifier)
    (turn : Turn (GlobalDeclarator.Derives specifier) header start) :
    Awaits specifier .unit tokens start
  /-- A name in the body of a function, behind its parameters. -/
  | body {tokens header listed declared start : List Token} {globals : List Global}
    {word name opening closing brace : Token} {returned : Specifier} {indirection : Nat}
    {parameters : Parameters} (before : Run Global.Derives tokens globals (word :: header))
    (specified : word.kind = .specifier returned)
    (stars : Stars header indirection (name :: opening :: listed)) (named : name.kind = .identifier)
    (opens : opening.kind = .leftParen)
    (derived : parameters.Derives listed (closing :: brace :: declared))
    (closes : closing.kind = .rightParen) (begins : brace.kind = .leftBrace)
    (inside : Awaits specifier .block declared start) : Awaits specifier .unit tokens start
  /-- A variable, behind other declarations. -/
  | declaration {tokens header start : List Token} {declared : List Declaration} {word : Token}
    (before : Run Declaration.Derives tokens declared (word :: header))
    (specified : word.kind = .specifier specifier)
    (turn : Turn (Declarator.Derives specifier) header start) :
    Awaits specifier .block tokens start
  /-- A name in a statement, behind declarations and other statements. -/
  | statements {tokens middle inner start : List Token} {declared : List Declaration}
    {clauses : List Clause} (before : Run Declaration.Derives tokens declared middle)
    (runs : Run Clause.Derives middle clauses inner)
    (inside : Awaits specifier .statement inner start) : Awaits specifier .block tokens start
  /-- A name in a block. -/
  | block {tokens start : List Token} {opening : Token} (opens : opening.kind = .leftBrace)
    (inside : Awaits specifier .block tokens start) : Awaits specifier .statement (opening :: tokens) start
  /-- A name in the body of a loop with a test. -/
  | whileLoop {tokens middle start : List Token} {word : Token} {test : Phrase}
    (spelled : word.kind = .whileWord) (tests : Clause.Condition tokens test middle)
    (inside : Awaits specifier .statement middle start) :
    Awaits specifier .statement (word :: tokens) start
  /-- A name in the body of a loop with a header. -/
  | forLoop {tokens tested stepped turned start : List Token} {word opening first second closing : Token}
    {init increment : Clause} {test : Phrase} (spelled : word.kind = .forWord)
    (opens : opening.kind = .leftParen) (starts : Clause.Assigns tokens init (first :: tested))
    (separates : first.kind = .semicolon)
    (tests : Phrase.Derives .expression tested test (second :: stepped))
    (parts : second.kind = .semicolon)
    (steps : Clause.Assigns stepped increment (closing :: turned))
    (closes : closing.kind = .rightParen) (inside : Awaits specifier .statement turned start) :
    Awaits specifier .statement (word :: opening :: tokens) start
  /-- A name in the first branch of a conditional. -/
  | ifThen {tokens middle start : List Token} {word : Token} {test : Phrase}
    (spelled : word.kind = .ifWord) (tests : Clause.Condition tokens test middle)
    (inside : Awaits specifier .statement middle start) :
    Awaits specifier .statement (word :: tokens) start
  /-- A name in the second branch. -/
  | ifElse {tokens middle further start : List Token} {word between : Token} {test : Phrase}
    {body : Clause} (spelled : word.kind = .ifWord) (tests : Clause.Condition tokens test middle)
    (taken : Clause.Derives middle body (between :: further)) (closed : body.dangles = false)
    (parts : between.kind = .elseWord) (inside : Awaits specifier .statement further start) :
    Awaits specifier .statement (word :: tokens) start

/-- The failure that an array of too large a size ends in: it tells of the array, or of a length that is
no word. -/
def tooLarge (name number : Token) : Failure :=
  if digitsValue number.text.toList < UInt32.size then
    .arrayTooLarge number.position.line name.text
  else .integerRange number.position.line number.text

/-- A declarator of an array, complete with its brackets, that takes more than a signed displacement
reaches, and the failure in which it ends. -/
inductive Declarator.Exceeds (specifier : Specifier) : List Token → Failure → Prop where
  /-- The size is the exact one. -/
  | array {start rest : List Token} {indirection : Nat} {name opening number closing : Token}
    (stars : Stars start indirection (name :: opening :: number :: closing :: rest))
    (named : name.kind = .identifier) (opens : opening.kind = .leftBracket)
    (spelled : number.kind = .integer) (closes : closing.kind = .rightBracket)
    (large : Ty.objectCeiling <
      digitsValue number.text.toList * Ty.elementSize specifier indirection) :
    Exceeds specifier start (tooLarge name number)

/-- Stars leave only tokens that stood there before. -/
theorem Stars.subset {start rest : List Token} {count : Nat} (stars : Stars start count rest) :
    rest ⊆ start := by
  induction stars with
  | none => exact fun _ listed => listed
  | more _ _ ih => exact fun _ listed => List.mem_cons_of_mem _ (ih listed)

namespace Reading

variable {specifier : Specifier} {start tokens : List Token} {failure : Failure}

/-- What stops wherever it starts stops behind a token that is asked for. -/
theorem Fails.behind {α : Type} {token : Token} {rest : List Token} {wanted : TokenKind}
    (same : token.kind = wanted) {next : PUnit → Reading α}
    (fails : ∀ reader, ∃ stopped, next ⟨⟩ reader = .error failure stopped) :
    Fails (Functor.discard (expect wanted) >>= next) (token :: rest) failure := by
  intro reader at_start
  obtain ⟨rfl, -⟩ := List.cons.inj at_start
  have taken : Functor.discard (expect wanted) reader = .ok ⟨⟩ reader.step := by
    -- The token is the one asked for, so it is taken and the rest starts behind it.
    have held : expect wanted reader = advance reader := by
      show (if reader.current.kind = wanted then advance else unexpected) reader = _
      rw [if_pos same]
    simp [Functor.discard, Functor.mapConst, EStateM.map, held, advance, modifyGet,
      MonadStateOf.modifyGet, EStateM.modifyGet]
  obtain ⟨stopped, failed⟩ := fails reader.step
  exact ⟨stopped, by simp [Bind.bind, EStateM.bind, taken, failed]⟩

/-- An array that takes too much is not declared. -/
theorem fails_declareObject {rest : List Token} {indirection : Nat} {name opening number closing : Token}
    (opens : opening.kind = .leftBracket) (spelled : number.kind = .integer)
    (closes : closing.kind = .rightBracket) (digits : Digits number.text.toList)
    (large : Ty.objectCeiling < digitsValue number.text.toList * Ty.elementSize specifier indirection) :
    Fails (declareObject specifier indirection name.text) (opening :: number :: closing :: rest)
      (tooLarge name number) := by
  have read := @decimalBelow?_digits UInt32.size _ digits
  have some : digitsValue number.text.toList ≠ 0 := by
    intro zero
    simp [zero] at large
  refine Fails.bind (Arrives.kind.fails fun kind same => ?_) _
  rw [same, ahead_cons, if_pos opens]
  refine (Arrives.expect opens (by simp)).discard.fails fun _ _ => .get fun reader at_start => ?_
  -- The line that is kept is that of the length.
  obtain ⟨rfl, -⟩ := List.cons.inj at_start
  unfold tooLarge
  split
  · next small =>
    rw [if_pos small] at read
    have counted (checker : Checker) : Reaches arrayLength ⟨reader.current :: closing :: rest, checker⟩
        (digitsValue reader.current.text.toList) ⟨closing :: rest, checker⟩ := by
      refine .get fun _ _ => .bind (reaches_wholeNumber spelled read (by simp)) ?_
      rw [if_neg some]
      exact .pure _
    refine (Arrives.of_reaches fun checker => ⟨checker, counted checker⟩).fails fun length same => ?_
    subst same
    refine .behind closes fun reader => ⟨reader, ?_⟩
    rw [Ty.sizedArray?, if_neg (Nat.not_le.mpr large)]
    rfl
  · next beyond =>
    rw [if_neg beyond] at read
    refine Fails.bind (.get fun other _ => Fails.bind ?_ _) _
    refine (Arrives.expect spelled (by simp)).fails fun token same => ?_
    rw [same, read]
    exact .throw _

/-- What behind the stars and the name of a declarator does not end well. -/
theorem exceeds_parts (exceeds : Declarator.Exceeds specifier start failure)
    (digits : ∀ token ∈ start, token.kind = .integer → Digits token.text.toList) :
    ∃ indirection name middle, Stars start indirection (name :: middle) ∧ name.kind = .identifier ∧
      0 < middle.length ∧ ahead middle ≠ .leftParen ∧
        Fails (declareObject specifier indirection name.text) middle failure := by
  obtain @⟨_, indirection, name, opening, number, closing, stars, named, opens, spelled, closes,
    large⟩ := exceeds
  refine ⟨indirection, name, _, stars, named, by simp, by simp [opens], ?_⟩
  exact fails_declareObject opens spelled closes (digits number (stars.subset (by simp)) spelled) large

theorem fails_declarator (exceeds : Declarator.Exceeds specifier start failure)
    (digits : ∀ token ∈ start, token.kind = .integer → Digits token.text.toList) :
    Fails (declarator specifier) start failure := by
  obtain ⟨indirection, name, middle, stars, named, longer, -, fails⟩ := exceeds_parts exceeds digits
  refine (Arrives.stars stars (by simp [named]) (by simp)).fails fun _ same => ?_
  refine (Arrives.name named longer).fails fun _ spelled => ?_
  rw [same, spelled]
  exact fails

/-- Behind the stars and the name of a declarator it is known how many stars there are, how the name is
spelled and what follows it. -/
theorem fails_named {α : Type} {middle : List Token} {token : Token} {count : Nat}
    {next : Nat → String → TokenKind → Reading α} (counted : Stars start count (token :: middle))
    (named : token.kind = .identifier) (longer : 0 < middle.length)
    (fails : Fails (next count token.text (ahead middle)) middle failure) :
    Fails (do next (← stars) (← name) (← kind)) start failure := by
  refine (Arrives.stars counted (by simp [named]) (by simp)).fails fun _ same => ?_
  refine (Arrives.name named longer).fails fun _ spelled => Arrives.kind.fails fun _ found => ?_
  rw [same, spelled, found]
  exact fails

theorem fails_globalDeclarator (exceeds : Declarator.Exceeds specifier start failure)
    (digits : ∀ token ∈ start, token.kind = .integer → Digits token.text.toList) :
    Fails (globalDeclarator specifier) start failure := by
  obtain ⟨indirection, name, middle, stars, named, longer, plain, fails⟩ :=
    exceeds_parts exceeds digits
  refine fails_named stars named longer ?_
  rw [if_neg plain]
  exact fails

theorem exceeds_pos (exceeds : Declarator.Exceeds specifier start failure) : 0 < start.length := by
  obtain ⟨stars, -⟩ := exceeds
  have inside := stars.shorter
  simp only [List.length_cons] at inside
  omega

/-- In front of a declarator behind a comma stands the first one of the list, and between the two the further
ones with their commas. -/
theorem first_of_later {α : Type} {item : List Token → α → List Token → Prop}
    (shorter : ∀ start thing rest, item start thing rest → rest.length < start.length)
    {header : List Token} {things : List α} {comma : Token}
    (before : Commas item header things (comma :: start)) (separated : comma.kind = .comma) :
    let whole := fun start thing rest => item start thing rest ∧ (ahead rest).endsDeclarator
    ∃ first others middle, whole header first middle ∧
      Run (AfterComma whole) middle others (comma :: start) ∧ start.length < middle.length ∧
        middle.length < header.length := by
  intro whole
  have complete := Commas.follow TokenKind.endsDeclarator (.inl rfl) before (.inl separated)
  obtain ⟨first, others, middle, rfl, head, run⟩ := (commas_iff _).mp complete
  have inside := Run.shorter (fun _ _ _ => AfterComma.shorter fun _ _ _ part => shorter _ _ _ part.1) run
  exact ⟨first, others, middle, head, run, inside, shorter _ _ _ head.1⟩

/-- A declaration stops at its first declarator that exceeds. -/
theorem fails_declaration {header : List Token} {word : Token}
    (exceeds : Declarator.Exceeds specifier start failure)
    (digits : ∀ token ∈ start, token.kind = .integer → Digits token.text.toList)
    (specified : word.kind = .specifier specifier)
    (turn : Turn (Declarator.Derives specifier) header start) :
    Fails declaration (word :: header) failure := by
  have fails := fails_declarator exceeds digits
  have some := exceeds_pos exceeds
  have listed : 0 < header.length ∧ Fails (commaSeparated (declarator specifier)) header failure := by
    -- Either the first declarator exceeds, or those before it are read and it stands behind a
    -- comma.
    cases turn with
    | first => exact ⟨some, fails.bind _⟩
    | later before separated =>
      obtain ⟨_, _, _, head, run, inside, less⟩ :=
        first_of_later (fun _ _ _ => Declarator.Derives.shorter) before separated
      have complete := complete_declarator specifier header.length
      refine ⟨by omega, ?_⟩
      refine (Arrives.of_complete complete head (Nat.le_refl _) (by omega)).fails fun _ _ => Fails.bind ?_ _
      exact .further complete (fun _ _ _ part => part.1.shorter) run (by omega) separated some fails
  refine (Arrives.specifier specified listed.1).fails fun _ same => ?_
  rw [same]
  exact listed.2.discard.bind _

/-- How reading stops inside of a region, whatever would be read behind it. -/
def Halts (failure : Failure) : Region → List Token → Prop
  | .unit, tokens => ∀ (σ : Type) (consume : Consumer σ) (clock : List Token) (reader : Reader)
      (output : σ), reader.remaining = tokens → tokens.length ≤ clock.length →
        2 * tokens.length + 1 ≤ reader.limit →
          (readDeclarations consume clock reader output).failure? = some failure
  | .block, tokens => ∀ levels, 2 * tokens.length + 1 ≤ levels →
      ∀ {α : Type} (next : List Statement → Reading α), Fails (do
        declarations
        let body ← many (· ≠ .rightBrace) (statement levels)
        next body) tokens failure
  | .statement, tokens => ∀ levels, 2 * tokens.length + 1 ≤ levels →
      Fails (statement levels) tokens failure

/-! Statements. -/

/-- A statement in which a name is declared opens with a brace or a word. -/
theorem opens_of_awaits (awaits : Awaits specifier .statement tokens start) :
    (ahead tokens).opensClause = true := by
  cases awaits with
  | block opens => simp [TokenKind.opensClause, opens]
  | whileLoop spelled | forLoop spelled | ifThen spelled | ifElse spelled =>
    simp [TokenKind.opensClause, spelled]

/-- There is something left where a name is declared later. -/
theorem pos_of_awaits {region : Region} (awaits : Awaits specifier region tokens start) :
    0 < tokens.length := by
  -- A run leaves at most what it starts from, and behind it stands the token that opens the next
  -- form.
  induction awaits with
  | global before | body before =>
    have declaring := Run.shorter (fun _ _ _ => Global.Derives.shorter) before
    simp only [List.length_cons] at declaring
    omega
  | declaration before =>
    have declaring := Run.shorter (fun _ _ _ => Declaration.Derives.shorter) before
    simp only [List.length_cons] at declaring
    omega
  | statements before runs _ ih =>
    have declaring := Run.shorter (fun _ _ _ => Declaration.Derives.shorter) before
    have running := Clause.Derives.shorter_run runs
    omega
  | block | whileLoop | forLoop | ifThen | ifElse => exact Nat.succ_pos _

/-- What opens a statement is none of what ends one, and no declaration. -/
theorem not_of_opensClause {kind : TokenKind} (opens : kind.opensClause = true) :
    kind ≠ .elseWord ∧ kind ≠ .rightBrace ∧ kind.isSpecifier = false := by
  refine ⟨?_, ?_, ?_⟩
  · rintro rfl
    cases opens
  · rintro rfl
    cases opens
  · cases kind
    case specifier => cases opens
    all_goals rfl

theorem halts_declaration {header : List Token} {declared : List Declaration} {word : Token}
    (exceeds : Declarator.Exceeds specifier start failure)
    (digits : ∀ token ∈ start, token.kind = .integer → Digits token.text.toList)
    (before : Run Declaration.Derives tokens declared (word :: header))
    (specified : word.kind = .specifier specifier)
    (turn : Turn (Declarator.Derives specifier) header start) : Halts failure .block tokens := by
  intro levels enough α next
  have goes : (ahead (word :: header)).isSpecifier = true := by
    rw [ahead_cons, specified]
    rfl
  have fails := fails_declaration exceeds digits specified turn
  -- The declarations in front of this one are read, and the loop stops inside it.
  refine Fails.bind ?_ _
  exact (Fails.many (complete_declaration tokens.length) (fun _ _ _ => Declaration.Derives.opens)
    (fun _ _ _ => Declaration.Derives.shorter) before (Nat.le_refl _) (by simp) goes fails).discard

theorem halts_statements {middle inner : List Token} {declared : List Declaration}
    {clauses : List Clause} (before : Run Declaration.Derives tokens declared middle)
    (runs : Run Clause.Derives middle clauses inner)
    (opens : (ahead inner).opensClause = true) (longer : 0 < inner.length)
    (halts : Halts failure .statement inner) : Halts failure .block tokens := by
  intro levels enough α next
  have declaring := Run.shorter (fun _ _ _ => Declaration.Derives.shorter) before
  have running := Clause.Derives.shorter_run runs
  have starts : (ahead middle).opensClause = true := by
    cases runs with
    | nil => exact opens
    | cons head _ => exact head.opens
  obtain ⟨-, -, plain⟩ := not_of_opensClause starts
  -- No statement before this one waits for another branch.
  have whole : Run Clause.Whole middle clauses inner := by
    refine Run.mono (fun _ _ _ both => ⟨both.1, fun _ => (not_of_opensClause both.2).1⟩)
      (Run.follow (·.opensClause = true) (fun _ _ _ => Clause.Derives.opens) runs opens)
  refine (Arrives.of_complete (complete_declarations tokens.length) ⟨before, plain⟩ (Nat.le_refl _)
    (by omega)).fails fun _ _ => Fails.bind ?_ _
  refine Fails.many (complete_statement tokens.length enough)
    (fun _ _ _ whole => decide_eq_true whole.1.not_closes) (fun _ _ _ whole => whole.1.shorter) whole
    (by omega) longer (decide_eq_true (not_of_opensClause opens).2.1) (halts levels (by omega))

section Statements

variable {header middle : List Token} {word : Token} {test : Phrase}

theorem halts_block {opening : Token} (opens : opening.kind = .leftBrace) (longer : 0 < tokens.length)
    (halts : Halts failure .block tokens) : Halts failure .statement (opening :: tokens) := by
  rintro (_ | levels) enough <;> simp only [List.length_cons] at enough
  · omega
  unfold statement
  refine Arrives.kind.fails fun _ found => ?_
  rw [found, ahead_cons, opens]
  refine (Arrives.advance longer).discard.fails fun _ _ => ?_
  refine (Arrives.act Checker.openScope).fails fun scope _ => ?_
  exact halts levels (by omega) _

/-- A condition is passed over. -/
theorem fails_condition {α : Type} {levels : Nat} {next : Expression → Reading α}
    (tests : Clause.Condition header test middle) (longer : 0 < middle.length)
    (enough : 2 * header.length ≤ levels) (fails : ∀ value, Fails (next value) middle failure) :
    Fails (condition levels >>= next) header failure :=
  (Arrives.of_complete (complete_condition header.length enough) tests (Nat.le_refl _)
    longer).fails fun value _ => fails value

theorem halts_whileLoop (spelled : word.kind = .whileWord)
    (tests : Clause.Condition header test middle) (longer : 0 < middle.length)
    (halts : Halts failure .statement middle) : Halts failure .statement (word :: header) := by
  have tested := tests.shorter
  rintro (_ | levels) enough <;> simp only [List.length_cons] at enough
  · omega
  unfold statement
  refine Arrives.kind.fails fun _ found => ?_
  rw [found, ahead_cons, spelled]
  refine (Arrives.advance (by omega)).discard.fails fun _ _ => ?_
  refine fails_condition tests longer (by omega) fun _ => ?_
  exact (halts levels (by omega)).insideLoop.bind _

theorem halts_forLoop {tested stepped turned : List Token} {opening first second closing : Token}
    {init increment : Clause} (spelled : word.kind = .forWord) (opens : opening.kind = .leftParen)
    (starts : Clause.Assigns header init (first :: tested)) (separates : first.kind = .semicolon)
    (tests : Phrase.Derives .expression tested test (second :: stepped))
    (parts : second.kind = .semicolon)
    (steps : Clause.Assigns stepped increment (closing :: turned))
    (closes : closing.kind = .rightParen) (longer : 0 < turned.length)
    (halts : Halts failure .statement turned) :
    Halts failure .statement (word :: opening :: header) := by
  -- What is left becomes shorter with each part of the header, so the clock lasts to the body.
  have starting := starts.shorter
  have testing := tests.shorter
  have stepping := steps.shorter
  simp only [List.length_cons] at starting testing stepping
  have whole : Rung.expression.goesOn second.kind = false := not_goesOn_expression (by simp [parts])
  rintro (_ | levels) enough <;> simp only [List.length_cons] at enough
  · omega
  unfold statement
  refine Arrives.kind.fails fun _ found => ?_
  rw [found, ahead_cons, spelled]
  refine (Arrives.advance (by simp)).discard.fails fun _ _ => ?_
  refine (Arrives.expect opens (by omega)).discard.fails fun _ _ => ?_
  refine (Arrives.of_complete (complete_assignment header.length (by omega))
    ⟨starts, by simp [separates]⟩ (Nat.le_refl _) (by simp)).fails fun _ _ => ?_
  refine (Arrives.expect separates (by omega)).discard.fails fun _ _ => ?_
  refine (Arrives.of_complete (complete_expression tested.length (by omega)) ⟨tests, whole⟩
    (Nat.le_refl _) (by simp)).fails fun value _ => ?_
  refine (Arrives.act (Checker.record (checkTest value))).fails fun _ _ => ?_
  refine (Arrives.expect parts (by omega)).discard.fails fun _ _ => ?_
  refine (Arrives.of_complete (complete_assignment stepped.length (by omega))
    ⟨steps, by simp [closes]⟩ (Nat.le_refl _) (by simp)).fails fun _ _ => ?_
  refine (Arrives.expect closes longer).discard.fails fun _ _ => ?_
  exact (halts levels (by omega)).insideLoop.bind _

theorem halts_ifThen (spelled : word.kind = .ifWord) (tests : Clause.Condition header test middle)
    (longer : 0 < middle.length) (halts : Halts failure .statement middle) :
    Halts failure .statement (word :: header) := by
  have tested := tests.shorter
  rintro (_ | levels) enough <;> simp only [List.length_cons] at enough
  · omega
  unfold statement
  refine Arrives.kind.fails fun _ found => ?_
  rw [found, ahead_cons, spelled]
  refine (Arrives.advance (by omega)).discard.fails fun _ _ => ?_
  refine fails_condition tests longer (by omega) fun _ => ?_
  exact (halts levels (by omega)).bind _

theorem halts_ifElse {further : List Token} {between : Token} {body : Clause}
    (spelled : word.kind = .ifWord) (tests : Clause.Condition header test middle)
    (taken : Clause.Derives middle body (between :: further)) (closed : body.dangles = false)
    (parts : between.kind = .elseWord) (longer : 0 < further.length)
    (halts : Halts failure .statement further) : Halts failure .statement (word :: header) := by
  have tested := tests.shorter
  have branched := taken.shorter
  simp only [List.length_cons] at branched
  rintro (_ | levels) enough <;> simp only [List.length_cons] at enough
  · omega
  unfold statement
  refine Arrives.kind.fails fun _ found => ?_
  rw [found, ahead_cons, spelled]
  refine (Arrives.advance (by omega)).discard.fails fun _ _ => ?_
  refine fails_condition tests (by omega) (by omega) fun _ => ?_
  -- The first branch leaves no conditional to which the other one could belong.
  refine (Arrives.of_complete (complete_statement middle.length (by omega)) (taken.whole closed)
    (Nat.le_refl _) (by simp)).fails fun _ _ => Arrives.kind.fails fun _ next => ?_
  rw [next, ahead_cons, if_pos parts]
  refine (Arrives.advance longer).discard.fails fun _ _ => ?_
  exact (halts levels (by omega)).bind _

end Statements

/-! Units. -/

section Units

variable {header : List Token} {word : Token}

/-- The first declarator of a unit's declaration may be the one that exceeds. -/
theorem fails_topLevel (exceeds : Declarator.Exceeds specifier start failure)
    (digits : ∀ token ∈ start, token.kind = .integer → Digits token.text.toList)
    (specified : word.kind = .specifier specifier) : Fails topLevel (word :: start) failure := by
  obtain ⟨indirection, name, middle, stars, named, longer, plain, fails⟩ :=
    exceeds_parts exceeds digits
  refine (Arrives.specifier specified (exceeds_pos exceeds)).fails fun _ found => ?_
  rw [found]
  refine fails_named stars named longer ?_
  rw [if_neg plain]
  exact fails.bind _

/-- What is behind the first declarator is read with the others. -/
theorem fails_behind {middle : List Token} {first : GlobalDeclarator}
    (specified : word.kind = .specifier specifier) (derived : first.Derives specifier header middle)
    (ends : (ahead middle).endsDeclarator) (longer : 0 < middle.length)
    (fails : Fails (furtherDeclarators specifier) middle failure) :
    Fails topLevel (word :: header) failure := by
  have less := derived.shorter
  refine (Arrives.specifier specified (by omega)).fails fun _ found => ?_
  rw [found]
  cases derived with
  | object derived =>
    obtain ⟨name, after, stars, named, same, further, plain, declare⟩ :=
      reaches_declareObject ⟨derived, ends⟩ longer
    -- An object is declared before the comma is read, a prototype behind its parameters.
    have declared : Arrives (declareObject specifier _ _) after (· = ⟨⟩) middle :=
      .of_reaches fun checker => ⟨_, @declare checker _ _ rfl⟩
    refine fails_named stars named further ?_
    rw [if_neg plain, same]
    exact declared.fails fun _ _ => fails.bind _
  | @prototype name opening closing _ after _ indirection parameters stars named opens derived closes =>
    have listed := derived.shorter
    simp only [List.length_cons] at listed
    have plain : ahead middle ≠ .leftBrace := by rcases ends with ends | ends <;> simp [ends]
    refine fails_named stars named (by simp) ?_
    rw [ahead_cons, if_pos opens]
    refine (Arrives.advance (by omega)).discard.fails fun _ _ => ?_
    refine (Arrives.of_complete (complete_signature specifier indirection after.length)
      ⟨derived, by simp [closes]⟩ (Nat.le_refl _) (by simp)).fails fun ⟨type, scope⟩ _ => ?_
    refine (Arrives.expect closes longer).discard.fails fun _ _ => Arrives.kind.fails fun _ follows => ?_
    rw [follows, if_neg plain]
    have declared : Arrives (declarePrototype name.text type) middle (· = ⟨⟩) middle :=
      .of_reaches fun checker => ⟨_, @reaches_declarePrototype _ checker _ _ _ _ rfl⟩
    exact declared.fails fun _ _ => fails.bind _

/-- Any of the declarators may be the one. -/
theorem fails_global (exceeds : Declarator.Exceeds specifier start failure)
    (digits : ∀ token ∈ start, token.kind = .integer → Digits token.text.toList)
    (specified : word.kind = .specifier specifier)
    (turn : Turn (GlobalDeclarator.Derives specifier) header start) :
    Fails topLevel (word :: header) failure := by
  cases turn with
  | first => exact fails_topLevel exceeds digits specified
  | later before separated =>
    obtain ⟨_, _, middle, head, run, inside, -⟩ :=
      first_of_later (fun _ _ _ => GlobalDeclarator.Derives.shorter) before separated
    refine fails_behind specified head.1 head.2 (by omega) (Fails.bind (.discard ?_) _)
    exact .further (complete_globalDeclarator specifier middle.length) (fun _ _ _ part => part.1.shorter)
      run (by omega) separated (exceeds_pos exceeds) (fails_globalDeclarator exceeds digits)

/-- The body of a function stops where its block does. -/
theorem fails_functionBody {declared : List Token} {brace : Token} (begins : brace.kind = .leftBrace)
    (longer : 0 < declared.length) (halts : Halts failure .block declared) (name : String) (type : Ty)
    (scope : ScopeId) :
    FailsAbove (2 * declared.length + 1) (functionBody name type scope) (brace :: declared) failure := by
  refine .get fun reader enough => ?_
  let parameters := (reader.checker.symbols.symbolsOf scope).length
  have inside : Fails (do
      let symbol ← act (Checker.defineFunction name type)
      discard (expect .leftBrace)
      declarations
      let body ← many (· ≠ .rightBrace) (statement reader.limit)
      let scope ← act Checker.closeScope
      discard (expect .rightBrace)
      return ({ symbol, parameters, scope, body } : Function)) (brace :: declared) failure := by
    refine (Arrives.act _).fails fun _ _ => ?_
    refine (Arrives.expect begins longer).discard.fails fun _ _ => ?_
    exact halts reader.limit enough _
  -- Either way the body is read next; a type may only be noted first.
  cases type.specifier? with
  | none => exact inside
  | some specifier => exact (Arrives.act _).fails fun _ _ => inside

theorem fails_definition {listed declared : List Token} {name opening closing brace : Token}
    {indirection : Nat} {parameters : Parameters} (specified : word.kind = .specifier specifier)
    (stars : Stars header indirection (name :: opening :: listed)) (named : name.kind = .identifier)
    (opens : opening.kind = .leftParen)
    (derived : parameters.Derives listed (closing :: brace :: declared))
    (closes : closing.kind = .rightParen) (begins : brace.kind = .leftBrace)
    (longer : 0 < declared.length) (halts : Halts failure .block declared) :
    FailsAbove (2 * declared.length + 1) topLevel (word :: header) failure := by
  have counted := stars.shorter
  have signing := derived.shorter
  simp only [List.length_cons] at counted signing
  refine Arrives.failsAbove Gives.specifier (.specifier specified (by omega)) fun _ _ => ?_
  refine Arrives.failsAbove Gives.stars (.stars stars (by simp [named]) (by simp)) fun _ _ => ?_
  refine Arrives.failsAbove Gives.name (.name named (by simp)) fun _ _ => ?_
  refine Arrives.failsAbove Gives.kind .kind fun _ next => ?_
  rw [next, ahead_cons, if_pos opens]
  refine Arrives.failsAbove Gives.advance.discard (Arrives.advance (by omega)).discard fun _ _ => ?_
  refine Arrives.failsAbove (Gives.signature _ _) (.of_complete (complete_signature _ _ listed.length)
    ⟨derived, by simp [closes]⟩ (Nat.le_refl _) (by simp)) fun ⟨type, scope⟩ _ => ?_
  refine Arrives.failsAbove (Gives.expect _).discard (Arrives.expect closes (by simp)).discard
    fun _ _ => ?_
  refine Arrives.failsAbove Gives.kind .kind fun _ follows => ?_
  rw [follows, ahead_cons, if_pos begins]
  -- All of the heading is read, so the body stops what is left.
  exact (fails_functionBody begins longer halts _ _ _).bind _

/-- A unit stops where one of the things at its top does, behind the others. -/
theorem halts_topLevel {globals : List Global} {least : Nat}
    (before : Run Global.Derives tokens globals (word :: header))
    (specified : word.kind.isSpecifier = true) (small : least ≤ 2 * header.length + 3)
    (fails : FailsAbove least topLevel (word :: header) failure) : Halts failure .unit tokens := by
  -- The place is fixed before the induction on the declarations in front of it.
  generalize reached : word :: header = rest at before fails
  induction before with
  | nil start =>
    intro σ consume clock reader output at_start enough limited
    subst reached
    obtain ⟨rfl, -⟩ := List.cons.inj at_start
    obtain _ | ⟨token, clock⟩ := clock
    · simp at enough
    obtain ⟨stopped, failed⟩ := fails reader (by simp at limited; omega) at_start
    have further : reader.current.kind ≠ .done := by
      intro ended
      rw [ended] at specified
      cases specified
    rw [readDeclarations, if_neg further]
    simp only [failed]
  | @cons start middle rest global others head tail ih =>
    intro σ consume clock reader output at_start enough limited
    have less := head.shorter
    have remains := Run.shorter (fun _ _ _ => Global.Derives.shorter) tail
    obtain _ | ⟨token, clock⟩ := clock
    · simp only [List.length_nil] at enough
      omega
    simp only [List.length_cons] at enough
    have further : reader.current.kind ≠ .done := by
      intro ended
      have opens := head.opens
      rw [← at_start] at opens
      change reader.current.kind.isSpecifier = true at opens
      rw [ended] at opens
      cases opens
    -- The first declaration is read in full and leaves what the hypothesis of the induction starts
    -- from.
    rcases elaborated : global.elaborate reader.checker.unplaced with ⟨result, known⟩
    obtain ⟨next, read, after⟩ := complete_topLevel head (by subst reached; simp at remains; omega)
      limited elaborated reader rfl (at_start ▸ rfl)
    have left : next.remaining = middle := congrArg Stage.tokens after
    obtain ⟨_, kept⟩ := topLevel_height read
    rw [readDeclarations, if_neg further]
    simp only [read]
    cases result with
    | none => exact ih reached fails σ consume clock next output left (by omega) (by omega)
    | some function =>
      exact ih reached fails σ consume clock _ _ left (by omega) (by change _ ≤ next.limit; omega)

end Units

/-- Wherever a declarator exceeds, reading stops at it. -/
theorem halts_of_awaits {region : Region} (exceeds : Declarator.Exceeds specifier start failure)
    (digits : ∀ token ∈ start, token.kind = .integer → Digits token.text.toList)
    (awaits : Awaits specifier region tokens start) : Halts failure region tokens := by
  -- The induction follows the way from the unit down to the declaration, and each form on the way
  -- passes the failure on.
  induction awaits with
  | global before specified turn =>
    refine halts_topLevel before (by rw [specified]; rfl) (Nat.zero_le _) ?_
    exact (fails_global exceeds digits specified turn).above 0
  | body before specified stars named opens derived closes begins inside ih =>
    have counted := stars.shorter
    have signing := derived.shorter
    simp only [List.length_cons] at counted signing
    refine halts_topLevel before (by rw [specified]; rfl) ?_ (fails_definition specified stars named
      opens derived closes begins (pos_of_awaits inside) (ih exceeds digits))
    omega
  | declaration before specified turn => exact halts_declaration exceeds digits before specified turn
  | statements before runs inside ih =>
    exact halts_statements before runs (opens_of_awaits inside) (pos_of_awaits inside)
      (ih exceeds digits)
  | block opens inside ih => exact halts_block opens (pos_of_awaits inside) (ih exceeds digits)
  | whileLoop spelled tests inside ih =>
    exact halts_whileLoop spelled tests (pos_of_awaits inside) (ih exceeds digits)
  | forLoop spelled opens starts separates tests parts steps closes inside ih =>
    exact halts_forLoop spelled opens starts separates tests parts steps closes (pos_of_awaits inside)
      (ih exceeds digits)
  | ifThen spelled tests inside ih =>
    exact halts_ifThen spelled tests (pos_of_awaits inside) (ih exceeds digits)
  | ifElse spelled tests taken closed parts inside ih =>
    exact halts_ifElse spelled tests taken closed parts (pos_of_awaits inside) (ih exceeds digits)

end Reading

end SmallC
