import SmallC.Proofs.Scoping.Phrases

/-! Statements keep their names: each stays inside the block that declares it, and every block gets
a scope of its own. -/

namespace SmallC

namespace Statement

/-- The symbols that are named in a statement, in order. -/
def symbols (statement : Statement) : List SymbolId :=
  Expression.symbolsOfList statement.expressions

/-- The symbols that are named in statements, in order. -/
def symbolsOfList (statements : List Statement) : List SymbolId := statements.flatMap symbols

theorem symbols_expressionsOfList (statements : List Statement) :
    Expression.symbolsOfList (expressionsOfList statements) = symbolsOfList statements := by
  induction statements with
  | nil => rfl
  | cons first rest ih =>
    rw [expressionsOfList, Expression.symbolsOfList, List.flatMap_append]
    exact congrArg (first.symbols ++ ·) ih

section Symbols

variable (value left right test : Expression) (init increment body otherwise : Statement)

@[simp] theorem symbols_evaluate : (evaluate value).symbols = value.symbols := by
  simp [symbols, expressions, Expression.symbolsOfList]

@[simp] theorem symbols_assign : (assign left right).symbols = left.symbols ++ right.symbols := by
  simp [symbols, expressions, Expression.symbolsOfList]

@[simp] theorem symbols_breakLoop : breakLoop.symbols = [] := by
  simp [symbols, expressions, Expression.symbolsOfList]

@[simp] theorem symbols_returnValue : (returnValue value).symbols = value.symbols := by
  simp [symbols, expressions, Expression.symbolsOfList]

@[simp] theorem symbols_block (scope : ScopeId) (body : List Statement) :
    (block scope body).symbols = symbolsOfList body := by
  rw [symbols, expressions, symbols_expressionsOfList]

@[simp] theorem symbols_whileLoop :
    (whileLoop test body).symbols = test.symbols ++ body.symbols := by
  simp [symbols, expressions, Expression.symbolsOfList]

@[simp] theorem symbols_forLoop : (forLoop init test increment body).symbols =
    init.symbols ++ (test.symbols ++ (increment.symbols ++ body.symbols)) := by
  simp [symbols, expressions, Expression.symbolsOfList]

@[simp] theorem symbols_ifThen : (ifThen test body).symbols = test.symbols ++ body.symbols := by
  simp [symbols, expressions, Expression.symbolsOfList]

@[simp] theorem symbols_ifElse : (ifElse test body otherwise).symbols =
    test.symbols ++ (body.symbols ++ otherwise.symbols) := by
  simp [symbols, expressions, Expression.symbolsOfList]

end Symbols

end Statement

/-- The symbols that an expression names are in the given scopes. -/
def Expression.Confined (around : List ScopeId) (expression : Expression) : Prop :=
  ∀ symbol ∈ expression.symbols, symbol.scope ∈ around

/-- The symbols that a statement names are in the given scopes, or in those of blocks around them. -/
inductive Statement.Confined : (around : List ScopeId) → Statement → Prop where
  /-- An expression alone. -/
  | evaluate {around : List ScopeId} {value : Expression} (inside : value.Confined around) :
    Confined around (.evaluate value)
  /-- A value and its place. -/
  | assign {around : List ScopeId} {left right : Expression} (place : left.Confined around)
    (value : right.Confined around) : Confined around (.assign left right)
  /-- Leaving a loop names nothing. -/
  | breakLoop {around : List ScopeId} : Confined around .breakLoop
  /-- A returned value. -/
  | returnValue {around : List ScopeId} {value : Expression} (inside : value.Confined around) :
    Confined around (.returnValue value)
  /-- The statements of a block may name what the block declares. -/
  | block {around : List ScopeId} {scope : ScopeId} {body : List Statement}
    (inside : ∀ statement ∈ body, Confined (scope :: around) statement) :
    Confined around (.block scope body)
  /-- A loop with a test. -/
  | whileLoop {around : List ScopeId} {test : Expression} {body : Statement}
    (tested : test.Confined around) (turn : Confined around body) :
    Confined around (.whileLoop test body)
  /-- A loop with a header. -/
  | forLoop {around : List ScopeId} {init increment body : Statement} {test : Expression}
    (start : Confined around init) (tested : test.Confined around) (next : Confined around increment)
    (turn : Confined around body) : Confined around (.forLoop init test increment body)
  /-- A conditional with one branch. -/
  | ifThen {around : List ScopeId} {test : Expression} {body : Statement}
    (tested : test.Confined around) (taken : Confined around body) :
    Confined around (.ifThen test body)
  /-- A conditional with two branches. -/
  | ifElse {around : List ScopeId} {test : Expression} {body otherwise : Statement}
    (tested : test.Confined around) (taken : Confined around body)
    (other : Confined around otherwise) : Confined around (.ifElse test body otherwise)

/-- A check that names only what is declared around it. -/
theorem Phrase.Traced.confined {phrase : Phrase} (traced : phrase.Traced) {checker : Checker}
    (proper : checker.scoping.Proper) :
    (phrase.elaborate checker).1.Confined checker.symbols.active := by
  intro symbol member
  obtain ⟨use, used, rfl⟩ := List.mem_map.mp ((traced checker proper).symbols.subset member)
  have inside := (phrase.stays_uses _ proper).2.2 use used
  rwa [Checker.scoping, SymbolTable.scopes_scoping] at inside

theorem Phrase.Traced.returns {phrase : Phrase} (traced : phrase.Traced) {checker : Checker}
    (proper : checker.scoping.Proper) :
    checker.scoping.Returns (phrase.elaborate checker).2.scoping := by
  rw [(traced checker proper).scoping]
  exact (phrase.stays_uses _ proper).1

/-! Declarations. -/

/-- A check that declares variables of the given names. -/
def Checking.Declares {α : Type} (check : Checking α) (names : List String) : Prop :=
  ∀ checker : Checker, checker.scoping.Proper →
    checker.Follows (check checker).2 (checker.scoping.declareAll names)

theorem declares_variable (name : String) {type : Ty} (stored : 0 < storageSize type) :
    Checking.Declares (Checker.declareVariable name type) [name] :=
  fun _ proper => Checker.follows_declareVariable proper stored

/-- Declarations in order declare their names in order. -/
theorem declares_mapM {α β : Type} {item : α → Checking β} {names : α → List String}
    {things : List α} (each : ∀ thing ∈ things, Checking.Declares (item thing) (names thing)) :
    Checking.Declares (things.mapM' item) (things.flatMap names) := by
  induction things with
  | nil => exact fun checker _ => .stay rfl
  | cons first rest ih =>
    intro checker proper
    have head := each first (by simp) checker proper
    have reached : (item first checker).2.scoping.Proper := by
      rw [head.scoping]
      exact proper.returns (Scoping.returns_declareAll _ _)
    -- The others are declared from where the first one has led.
    have tail := ih (fun thing member => each thing (by simp [member])) _ reached
    rw [head.scoping] at tail
    rw [List.flatMap_cons, Scoping.declareAll, List.foldl_append]
    exact head.trans tail

theorem storageSize_scalar (specifier : Specifier) (indirection : Nat) :
    0 < storageSize (.scalar specifier indirection) := by
  change 0 < Ty.elementSize specifier indirection
  cases indirection with
  | zero => cases specifier <;> decide
  | succ depth => exact Nat.succ_pos 3

/-- Every variable that the grammar allows takes storage. -/
theorem Declarator.Derives.stored {specifier : Specifier} {start rest : List Token}
    {declarator : Declarator} (derived : declarator.Derives specifier start rest) :
    0 < storageSize (declarator.type specifier) := by
  cases derived with
  | scalar => exact storageSize_scalar _ _
  | @array _ indirection _ _ _ _ _ _ _ _ _ _ nonempty =>
    have element : 0 < Ty.elementSize specifier indirection := storageSize_scalar _ _
    have bytes := Nat.mul_pos (Nat.pos_of_ne_zero nonempty) element
    exact Nat.lt_min.mpr ⟨bytes, by decide⟩

theorem Run.each {α : Type} {item : List Token → α → List Token → Prop} {start rest : List Token}
    {things : List α} (run : Run item start things rest) :
    ∀ thing ∈ things, ∃ before after, item before thing after := by
  induction run with
  | nil => simp
  | cons head tail ih =>
    intro thing member
    rcases List.mem_cons.mp member with rfl | member
    · exact ⟨_, _, head⟩
    · exact ih thing member

theorem Commas.each {α : Type} {item : List Token → α → List Token → Prop}
    {start rest : List Token} {things : List α} (listed : Commas item start things rest) :
    ∀ thing ∈ things, ∃ before after, item before thing after := by
  induction listed with
  | one head =>
    intro thing member
    rw [List.mem_singleton.mp member]
    exact ⟨_, _, head⟩
  | more head _ tail ih =>
    intro thing member
    rcases List.mem_cons.mp member with rfl | member
    · exact ⟨_, _, head⟩
    · exact ih thing member

theorem Declaration.Derives.declares {start rest : List Token} {declaration : Declaration}
    (derived : declaration.Derives start rest) :
    Checking.Declares declaration.elaborate declaration.names := by
  obtain @⟨_, _, _, _, specifier, declarators, _, declared, _⟩ := derived
  have each : ∀ declarator ∈ declarators, Checking.Declares
      (Declarator.elaborate specifier declarator) [declarator.name] := by
    intro declarator member
    obtain ⟨_, _, derived⟩ := declared.each declarator member
    exact declares_variable declarator.name derived.stored
  have all := declares_mapM each
  rw [← List.map_eq_flatMap] at all
  exact all

theorem declares_declarations {start rest : List Token} {declared : List Declaration}
    (run : Run Declaration.Derives start declared rest) :
    Checking.Declares (declared.mapM' Declaration.elaborate)
      (declared.flatMap Declaration.names) := by
  refine declares_mapM fun declaration member => ?_
  obtain ⟨_, _, derived⟩ := run.each declaration member
  exact derived.declares

theorem declares_parameters (parameters : List Parameter) :
    Checking.Declares (parameters.mapM' Parameter.elaborate) (parameters.map Parameter.name) := by
  have each : ∀ parameter ∈ parameters, Checking.Declares parameter.elaborate [parameter.name] :=
    fun parameter _ => declares_variable parameter.name (storageSize_scalar _ _)
  have all := declares_mapM each
  rwa [← List.map_eq_flatMap] at all

/-! Statements. -/

/-- A check of one or more statements that names what is in scope and gives each block a scope. -/
structure Checker.Walks (old new : Checker) (symbols : List SymbolId) (scopes : List ScopeId)
    (walked : List Use × Scoping) : Prop extends old.Traces new symbols walked where
  /-- The same scopes are open afterwards. -/
  returns : old.scoping.Returns new.scoping
  /-- Blocks take the next scopes in order. -/
  scopes : ∃ count, scopes = List.range' old.scoping.opened count ∧
    new.scoping.opened = old.scoping.opened + count

namespace Checker

variable {old middle new : Checker}

/-- Nothing but names is walked along. -/
theorem Walks.nothing (checker : Checker) : checker.Walks checker [] [] ([], checker.scoping) :=
  ⟨.nothing checker, .refl _, 0, rfl, rfl⟩

theorem Walks.proper {symbols : List SymbolId} {scopes : List ScopeId} {walked : List Use × Scoping}
    (walks : old.Walks new symbols scopes walked) (proper : old.scoping.Proper) :
    new.scoping.Proper :=
  proper.returns walks.returns

theorem Walks.active {symbols : List SymbolId} {scopes : List ScopeId} {walked : List Use × Scoping}
    (walks : old.Walks new symbols scopes walked) : new.symbols.active = old.symbols.active := by
  have same := walks.returns.scopes
  rwa [scoping, scoping, SymbolTable.scopes_scoping, SymbolTable.scopes_scoping] at same

/-- Walks follow each other. -/
theorem Walks.both {symbols others : List SymbolId} {scopes further : List ScopeId}
    {first second : Scoped (List Use)}
    (early : old.Walks middle symbols scopes (first old.scoping))
    (late : middle.Walks new others further (second middle.scoping)) :
    old.Walks new (symbols ++ others) (scopes ++ further)
      (Scoped.both first second old.scoping) := by
  refine ⟨early.toTraces.both late.toTraces, early.returns.trans late.returns, ?_⟩
  obtain ⟨count, numbered, opened⟩ := early.scopes
  obtain ⟨more, continued, reached⟩ := late.scopes
  refine ⟨count + more, ?_, by omega⟩
  rw [numbered, continued, opened]
  exact List.range'_append_1

/-- Only the table matters of a checker, before a walk and after it. -/
theorem Walks.same {start : Checker} {symbols : List SymbolId} {scopes : List ScopeId}
    {walked : List Use × Scoping} (walks : old.Walks middle symbols scopes walked)
    (before : start.symbols = old.symbols) (after : new.symbols = middle.symbols) :
    start.Walks new symbols scopes walked := by
  obtain ⟨⟨⟨scoping, declares⟩, traced, known⟩, returns, numbered⟩ := walks
  have begun : start.scoping = old.scoping := congrArg SymbolTable.scoping before
  have ended : new.scoping = middle.scoping := congrArg SymbolTable.scoping after
  rw [← before, ← after] at declares
  rw [← after] at known
  rw [← ended] at scoping
  rw [← begun, ← ended] at returns numbered
  exact ⟨⟨⟨scoping, declares⟩, traced, known⟩, returns, numbered⟩

end Checker

/-- A phrase opens no scope. -/
theorem Phrase.Traced.walks {phrase : Phrase} (traced : phrase.Traced) {checker : Checker}
    (proper : checker.scoping.Proper) :
    checker.Walks (phrase.elaborate checker).2 (phrase.elaborate checker).1.symbols []
      (phrase.uses checker.scoping) := by
  refine ⟨traced checker proper, traced.returns proper, 0, rfl, ?_⟩
  rw [(traced checker proper).scoping]
  exact (phrase.stays_uses _ proper).2.1

namespace Clause

/-- Wherever a statement is checked, its names are walked along and stay in their blocks. -/
def Traced (clause : Clause) : Prop :=
  ∀ checker : Checker, checker.scoping.Proper →
    checker.Walks (clause.elaborate checker).2 (clause.elaborate checker).1.symbols
        (clause.elaborate checker).1.scopes (clause.uses checker.scoping) ∧
      (clause.elaborate checker).1.Confined checker.symbols.active

/-- Wherever statements are checked in order, their names are walked along and stay in their
blocks. -/
def TracedAll (clauses : List Clause) : Prop :=
  ∀ checker : Checker, checker.scoping.Proper →
    checker.Walks (elaborateAll clauses checker).2
        (Statement.symbolsOfList (elaborateAll clauses checker).1)
        (Statement.scopesOfList (elaborateAll clauses checker).1)
        (usesAll clauses checker.scoping) ∧
      ∀ statement ∈ (elaborateAll clauses checker).1, statement.Confined checker.symbols.active

/-- The loops around a statement do not matter for its names. -/
theorem Traced.turn {clause : Clause} (traced : clause.Traced) {checker : Checker}
    (proper : checker.scoping.Proper) :
    let turned := elaborateTurn clause.elaborate checker
    checker.Walks turned.2 turned.1.symbols turned.1.scopes (clause.uses checker.scoping) ∧
      turned.1.Confined checker.symbols.active := by
  obtain ⟨walks, confined⟩ := traced checker.enterLoop proper
  exact ⟨walks.same rfl rfl, confined⟩

/-- A condition names what its phrase does. -/
theorem walks_test {test : Phrase} (traced : test.Traced) {checker : Checker}
    (proper : checker.scoping.Proper) :
    let tested := elaborateTest test checker
    checker.Walks tested.2 tested.1.symbols [] (test.uses checker.scoping) ∧
      tested.1.Confined checker.symbols.active := by
  -- Checking a condition changes neither the symbols of its node nor the table.
  have kept : (elaborateTest test checker).1.symbols = (test.elaborate checker).1.symbols :=
    symbols_checkTest _
  have walks := (traced.walks proper).same rfl
    (Checker.symbols_record (checkTest (test.elaborate checker).1) _)
  have confined := traced.confined proper
  unfold Expression.Confined at *
  rw [← kept] at walks confined
  exact ⟨walks, confined⟩

theorem traced_evaluate {value : Phrase} (traced : value.Traced) : (evaluate value).Traced := by
  intro checker proper
  have done : (evaluate value).elaborate checker =
      (.evaluate (value.elaborate checker).1, (value.elaborate checker).2) := by
    rw [elaborate]
    rfl
  rw [done, uses]
  refine ⟨?_, .evaluate (traced.confined proper)⟩
  rw [Statement.symbols_evaluate, Statement.scopes]
  exact traced.walks proper

theorem traced_assign {left right : Phrase} (first : left.Traced) (second : right.Traced) :
    (assign left right).Traced := by
  intro checker proper
  have walks := (first.walks proper).both (second.walks (first.proper proper))
  have done : (assign left right).elaborate checker =
      Checker.record (checkAssign (left.elaborate checker).1
        (right.elaborate (left.elaborate checker).2).1)
        (right.elaborate (left.elaborate checker).2).2 := by
    rw [elaborate]
    rfl
  rw [done, uses]
  have table := Checker.symbols_record (checkAssign (left.elaborate checker).1
    (right.elaborate (left.elaborate checker).2).1) (right.elaborate (left.elaborate checker).2).2
  -- The assignment names what both sides name, a conversion aside.
  refine ⟨?_, ?_⟩
  · have kept := walks.same rfl table
    simpa [Checker.record, checkAssign, Statement.scopes] using kept
  · have place := first.confined proper
    have value := second.confined (first.proper proper)
    rw [(first.walks proper).active] at value
    refine .assign place ?_
    unfold Expression.Confined at *
    rwa [Expression.symbols_convert]

theorem traced_breakLoop : breakLoop.Traced := by
  intro checker proper
  have done : breakLoop.elaborate checker = Checker.record (checkBreak checker.loops) checker := by
    rw [elaborate]
    rfl
  rw [done, uses]
  refine ⟨?_, .breakLoop⟩
  change checker.Walks _ Statement.breakLoop.symbols [] ([], checker.scoping)
  rw [Statement.symbols_breakLoop]
  exact (Checker.Walks.nothing checker).same rfl
    (Checker.symbols_record (checkBreak checker.loops) checker)

theorem traced_returnValue {value : Phrase} (traced : value.Traced) :
    (returnValue value).Traced := by
  intro checker proper
  have done : (returnValue value).elaborate checker =
      Checker.record (checkReturn (value.elaborate checker).2.returned (value.elaborate checker).1)
        (value.elaborate checker).2 := by
    rw [elaborate]
    rfl
  rw [done, uses]
  -- A conversion of the value names nothing more.
  refine ⟨?_, ?_⟩
  · have kept := (traced.walks proper).same rfl
      (Checker.symbols_record (checkReturn (value.elaborate checker).2.returned
        (value.elaborate checker).1) (value.elaborate checker).2)
    simpa [Checker.record, checkReturn, Statement.scopes] using kept
  · have inside := traced.confined proper
    refine .returnValue ?_
    unfold Expression.Confined at *
    rwa [Expression.symbols_promote]

theorem traced_whileLoop {test : Phrase} {body : Clause} (tested : test.Traced)
    (turn : body.Traced) : (whileLoop test body).Traced := by
  intro checker proper
  obtain ⟨first, within⟩ := walks_test tested proper
  obtain ⟨second, inside⟩ := turn.turn (first.proper proper)
  -- The test comes before the turn, and both are checked in the same scopes.
  have done : (whileLoop test body).elaborate checker =
      (.whileLoop (elaborateTest test checker).1
        (elaborateTurn body.elaborate (elaborateTest test checker).2).1,
        (elaborateTurn body.elaborate (elaborateTest test checker).2).2) := by
    rw [elaborate]
    rfl
  rw [done, uses]
  refine ⟨?_, .whileLoop within (first.active ▸ inside)⟩
  rw [Statement.symbols_whileLoop, Statement.scopes]
  exact first.both second

theorem traced_forLoop {init increment body : Clause} {test : Phrase} (start : init.Traced)
    (tested : test.Traced) (next : increment.Traced) (turn : body.Traced) :
    (forLoop init test increment body).Traced := by
  intro checker proper
  obtain ⟨first, begun⟩ := start checker proper
  have before := first.proper proper
  obtain ⟨second, within⟩ := walks_test tested before
  have between := second.proper before
  obtain ⟨third, stepped⟩ := next _ between
  obtain ⟨fourth, inside⟩ := turn.turn (third.proper between)
  have done : (forLoop init test increment body).elaborate checker =
      let started := init.elaborate checker
      let decided := elaborateTest test started.2
      let moved := increment.elaborate decided.2
      let turned := elaborateTurn body.elaborate moved.2
      (.forLoop started.1 decided.1 moved.1 turned.1, turned.2) := by
    rw [elaborate]
    rfl
  rw [done, uses]
  -- Every part leaves the scopes open that it has found.
  rw [third.active, second.active, first.active] at inside
  rw [second.active, first.active] at stepped
  rw [first.active] at within
  refine ⟨?_, .forLoop begun within stepped inside⟩
  rw [Statement.symbols_forLoop, Statement.scopes]
  exact first.both (second.both (third.both fourth))

theorem traced_ifThen {test : Phrase} {body : Clause} (tested : test.Traced)
    (taken : body.Traced) : (ifThen test body).Traced := by
  intro checker proper
  obtain ⟨first, within⟩ := walks_test tested proper
  obtain ⟨second, inside⟩ := taken _ (first.proper proper)
  have done : (ifThen test body).elaborate checker =
      (.ifThen (elaborateTest test checker).1 (body.elaborate (elaborateTest test checker).2).1,
        (body.elaborate (elaborateTest test checker).2).2) := by
    rw [elaborate]
    rfl
  rw [done, uses]
  refine ⟨?_, .ifThen within (first.active ▸ inside)⟩
  rw [Statement.symbols_ifThen, Statement.scopes]
  exact first.both second

theorem traced_ifElse {test : Phrase} {body otherwise : Clause} (tested : test.Traced)
    (taken : body.Traced) (other : otherwise.Traced) : (ifElse test body otherwise).Traced := by
  intro checker proper
  obtain ⟨first, within⟩ := walks_test tested proper
  -- Each part starts in the table that the one in front of it left.
  have between := first.proper proper
  obtain ⟨second, inside⟩ := taken _ between
  obtain ⟨third, beside⟩ := other _ (second.proper between)
  have done : (ifElse test body otherwise).elaborate checker =
      let decided := elaborateTest test checker
      let chosen := body.elaborate decided.2
      let left := otherwise.elaborate chosen.2
      (.ifElse decided.1 chosen.1 left.1, left.2) := by
    rw [elaborate]
    rfl
  rw [done, uses]
  rw [second.active, first.active] at beside
  rw [first.active] at inside
  refine ⟨?_, .ifElse within inside beside⟩
  rw [Statement.symbols_ifElse, Statement.scopes]
  exact first.both (second.both third)

theorem tracedAll_nil : TracedAll [] := by
  intro checker proper
  rw [elaborateAll, usesAll]
  refine ⟨.nothing checker, ?_⟩
  intro statement member
  cases member

theorem tracedAll_cons {first : Clause} {rest : List Clause} (head : first.Traced)
    (tail : TracedAll rest) : TracedAll (first :: rest) := by
  intro checker proper
  obtain ⟨walks, confined⟩ := head checker proper
  obtain ⟨further, others⟩ := tail _ (walks.proper proper)
  have done : elaborateAll (first :: rest) checker =
      ((first.elaborate checker).1 :: (elaborateAll rest (first.elaborate checker).2).1,
        (elaborateAll rest (first.elaborate checker).2).2) := by
    rw [elaborateAll]
    rfl
  rw [done, usesAll]
  refine ⟨?_, ?_⟩
  · rw [Statement.symbolsOfList, List.flatMap_cons, Statement.scopesOfList]
    exact walks.both further
  · intro statement member
    -- The first statement leaves the scopes open for the others.
    rcases List.mem_cons.mp member with rfl | member
    · exact confined
    · exact walks.active ▸ others statement member

/-- A block declares its variables in the next scope, which ends with it. -/
theorem traced_block {declared : List Declaration} {body : List Clause}
    (declares : Checking.Declares (declared.mapM' Declaration.elaborate)
      (declared.flatMap Declaration.names)) (inside : TracedAll body) :
    (block declared body).Traced := by
  intro checker proper
  let opened := checker.openScope.2
  let ready := (declared.mapM' Declaration.elaborate opened).2
  let ended := elaborateAll body ready
  have done : (block declared body).elaborate checker =
      (.block checker.openScope.1 ended.1, ended.2.closeScope.2) := by
    rw [elaborate]
    rfl
  have walked : (block declared body).uses checker.scoping =
      let uses := usesAll body (checker.scoping.enter.declareAll (declared.flatMap Declaration.names))
      (uses.1, uses.2.leave) := by
    rw [uses]
    rfl
  -- The variables are declared in the scope that was opened.
  have opening := checker.follows_openScope
  have entered : opened.scoping.Proper := opening.scoping ▸ proper.enter
  have declaring := declares opened entered
  rw [opening.scoping] at declaring
  have returns := Scoping.returns_declareAll checker.scoping.enter
    (declared.flatMap Declaration.names)
  have prepared : ready.scoping.Proper := by
    rw [declaring.scoping]
    exact proper.enter.returns returns
  obtain ⟨walks, confined⟩ := inside ready prepared
  rw [declaring.scoping] at walks
  have closing := ended.2.follows_closeScope
  have around := declaring.scoping ▸ returns
  rw [done, walked]
  refine ⟨⟨⟨?_, ?_, ?_⟩, ?_, ?_⟩, ?_⟩
  · rw [walks.scoping] at closing
    exact opening.trans (declaring.trans (walks.toFollows.trans closing))
  · rw [Statement.symbols_block]
    exact walks.symbols
  · exact walks.known
  · rw [closing.scoping]
    exact (around.trans walks.returns).around
  · obtain ⟨count, numbered, reached⟩ := walks.scopes
    rw [declaring.scoping, Scoping.opened_declareAll] at numbered reached
    refine ⟨count + 1, ?_, ?_⟩
    · rw [Statement.scopes, numbered, List.range'_succ]
      rfl
    · rw [closing.scoping]
      exact reached.trans (Nat.add_right_comm _ _ _)
  · have active : ready.symbols.active = checker.openScope.1 :: checker.symbols.active := by
      have same := around.scopes
      rw [Checker.scoping, SymbolTable.scopes_scoping] at same
      rw [same, Checker.scoping, ← SymbolTable.scoping_openScope, SymbolTable.scopes_scoping]
      rfl
    exact .block (active ▸ confined)

theorem Assigns.traced {start rest : List Token} {clause : Clause}
    (assigns : Assigns start clause rest) : clause.Traced := by
  cases assigns with
  | evaluate derived => exact traced_evaluate derived.traced
  | assign first _ second => exact traced_assign first.traced second.traced

theorem Condition.traced {start rest : List Token} {test : Phrase}
    (condition : Condition start test rest) : test.Traced := by
  obtain ⟨_, derived, _⟩ := condition
  exact derived.traced

mutual

/-- The names of every statement of the grammar are walked along. -/
theorem Derives.traced {start rest : List Token} {clause : Clause} :
    Derives start clause rest → clause.Traced
  | .simple assigns _ => assigns.traced
  | .breakLoop _ _ => traced_breakLoop
  | .returnValue _ derived _ => traced_returnValue derived.traced
  | .block _ declares runs _ =>
    traced_block (declares_declarations declares) (Derives.traced_run runs)
  | .whileLoop _ tests turn => traced_whileLoop tests.traced turn.traced
  | .forLoop _ _ starts _ tests _ steps _ turn =>
    traced_forLoop starts.traced tests.traced steps.traced turn.traced
  | .ifThen _ tests taken => traced_ifThen tests.traced taken.traced
  | .ifElse _ tests taken _ _ other => traced_ifElse tests.traced taken.traced other.traced

theorem Derives.traced_run {start rest : List Token} {clauses : List Clause} :
    Run Derives start clauses rest → TracedAll clauses
  | .nil _ => tracedAll_nil
  | .cons head tail => tracedAll_cons head.traced (Derives.traced_run tail)

end

end Clause

end SmallC
