import Mathlib.Data.List.Forall2
import SmallC.Proofs.Scoping.Storage
import SmallC.Proofs.Typing.Compilation

/-! Units keep their names: functions are handed on with the names that the source gives them. -/

namespace SmallC

/-- A table that keeps the symbols of another has as many in every scope. -/
theorem SymbolTable.Keeps.length_le {old new : SymbolTable} (keeps : old.Keeps new)
    (scope : ScopeId) : (old.symbolsOf scope).length ≤ (new.symbolsOf scope).length := by
  have same := congrArg List.length (keeps.declarations scope)
  simp only [List.length_take, List.length_map] at same
  omega

/-- The first symbols of a scope keep their names. -/
theorem SymbolTable.Keeps.names {old new : SymbolTable} (keeps : old.Keeps new) (scope : ScopeId)
    {count : Nat} (counted : count ≤ (old.symbolsOf scope).length) :
    ((new.symbolsOf scope).take count).map Symbol.name =
      ((old.symbolsOf scope).take count).map Symbol.name := by
  have same := congrArg (fun known => (known.take count).map Prod.fst) (keeps.declarations scope)
  rw [List.take_take, Nat.min_eq_left counted, ← List.map_take, ← List.map_take, List.map_map,
    List.map_map] at same
  exact same

/-- A function has the names of its definition: it is called by its own, and those in its body are
the ones that are used there. -/
structure Function.Follows (function : Function) (table : SymbolTable) (definition : Definition)
    (uses : List Use) : Prop where
  /-- The function is called by its own name. -/
  called : table.nameOf function.symbol = definition.name
  /-- Its parameters have the names that are listed, each once. -/
  accepted : ((table.symbolsOf function.scope).take function.parameters).map Symbol.name =
    (definition.parameters.listed.map Parameter.name).eraseDups
  /-- The names in the body are used there in this order. -/
  symbols : (Statement.symbolsOfList function.body).Sublist (uses.map Use.symbol)
  /-- Every name that is used is the one its symbol was declared with. -/
  known : ∀ use ∈ uses, ∃ type, table.declared? use.symbol = some (use.spelling, type)

namespace Definition

/-- Check what stands before the statements of a function, which gives its symbol and the number of
its parameters. -/
def announce (definition : Definition) : Checking (SymbolId × Nat) := do
  let signature ← definition.parameters.elaborate definition.specifier definition.indirection
  let parameters := ((← get).symbols.symbolsOf signature.2).length
  modify (·.beginFunction (.scalar definition.specifier definition.indirection))
  let symbol ← Checker.defineFunction definition.name signature.1
  discard (definition.declared.mapM' Declaration.elaborate)
  return (symbol, parameters)

/-- The scopes that are open before the statements of a function. -/
def announced (definition : Definition) (scoping : Scoping) : Scoping :=
  let listed := scoping.enter.declareAll (definition.parameters.listed.map Parameter.name)
  (listed.declareIn unitScope definition.name).declareAll
    (definition.declared.flatMap Declaration.names)

variable {definition : Definition} {checker : Checker}

/-- The statements of a function are checked after what stands before them. -/
theorem elaborate_eq (definition : Definition) (checker : Checker) :
    definition.elaborate checker =
      let begun := definition.announce checker
      let body := Clause.elaborateAll definition.body begun.2
      ({ symbol := begun.1.1, parameters := begun.1.2, scope := body.2.closeScope.1, body := body.1 },
        body.2.closeScope.2) := rfl

/-- The names in the statements of a function are used after what stands before them. -/
theorem uses_eq (definition : Definition) (scoping : Scoping) : definition.uses scoping =
    let uses := Clause.usesAll definition.body (definition.announced scoping)
    (uses.1, uses.2.leave) := rfl

/-- What has been checked of a function before its statements. -/
structure Begins (definition : Definition) (old new : Checker) (symbol : SymbolId)
    (parameters : Nat) : Prop extends old.Follows new (definition.announced old.scoping) where
  /-- The scope of the body is open in the unit. -/
  entered : old.scoping.enter.Returns new.scoping
  /-- No other scope has been opened. -/
  opened : new.scoping.opened = old.scoping.opened + 1
  /-- The function has a symbol in the unit. -/
  outermost : symbol.scope = unitScope
  /-- The symbol has its name. -/
  known : ∃ type, new.symbols.declared? symbol = some (definition.name, type)
  /-- The parameters are in the scope of the body. -/
  counted : parameters ≤ (new.symbols.symbolsOf old.scoping.opened).length
  /-- They have the names that are listed. -/
  accepted : ((new.symbols.symbolsOf old.scoping.opened).take parameters).map Symbol.name =
    (definition.parameters.listed.map Parameter.name).eraseDups

theorem begins_announce {declared body : List Token}
    (declares : Run Declaration.Derives declared definition.declared body)
    (proper : checker.scoping.Proper) :
    definition.Begins checker (definition.announce checker).2 (definition.announce checker).1.1
      (definition.announce checker).1.2 := by
  let opened := checker.openScope.2
  let listed := definition.parameters.listed.mapM' Parameter.elaborate opened
  let type := Ty.function definition.specifier definition.indirection listed.1
    definition.parameters.variadic
  let begun := listed.2.beginFunction (.scalar definition.specifier definition.indirection)
  let named := begun.defineFunction definition.name type
  let ready := (definition.declared.mapM' Declaration.elaborate named.2).2
  have done : definition.announce checker =
      ((named.1, (listed.2.symbols.symbolsOf checker.openScope.1).length), ready) := rfl
  -- First the parameters are declared, then the function, and then the variables of the body.
  have opening : checker.Follows opened checker.scoping.enter := checker.follows_openScope
  have listing : opened.Follows listed.2 _ := declares_parameters definition.parameters.listed opened
    (opening.scoping ▸ proper.enter)
  have accepted : opened.scoping.Returns listed.2.scoping :=
    listing.scoping ▸ Scoping.returns_declareAll _ _
  have started : begun.scoping.Proper := (opening.scoping ▸ proper.enter).returns accepted
  obtain ⟨defining, outermost, known⟩ :
      begun.Follows named.2 (begun.scoping.declareIn unitScope definition.name) ∧
        named.1.scope = unitScope ∧
          ∃ type, named.2.symbols.declared? named.1 = some (definition.name, type) :=
    Checker.follows_defineFunction started
  have renamed : begun.scoping.Returns named.2.scoping :=
    defining.scoping ▸ Scoping.returns_declareIn _ _ _
  have declaring : named.2.Follows ready _ := declares_declarations declares named.2
    (started.returns renamed)
  have filled : named.2.scoping.Returns ready.scoping :=
    declaring.scoping ▸ Scoping.returns_declareAll _ _
  have scoping : ready.scoping = definition.announced checker.scoping := by
    rw [declaring.scoping, defining.scoping]
    change ((listed.2.scoping).declareIn _ _).declareAll _ = _
    rw [listing.scoping, opening.scoping]
    rfl
  have later := defining.declares.trans declaring.declares
  -- The scope of the body has the names of the parameters, and more may follow.
  have names : listed.2.symbols.namesOf checker.scoping.opened =
      (definition.parameters.listed.map Parameter.name).eraseDups := by
    have first := checker.scoping.head?_declareAll
      (definition.parameters.listed.map Parameter.name)
    rw [← opening.scoping, ← listing.scoping] at first
    change (listed.2.symbols.active.map _).head? = _ at first
    obtain ⟨scope, _, level⟩ := Option.map_eq_some_iff.mp (List.head?_map .. ▸ first)
    obtain ⟨rfl, named⟩ := Level.mk.inj level
    exact named
  rw [done]
  refine ⟨⟨scoping, ?_⟩, ?_, ?_, outermost, ?_, ?_, ?_⟩
  · exact opening.declares.trans (listing.declares.trans later)
  · exact opening.scoping ▸ accepted.trans (renamed.trans filled)
  · rw [scoping]
    simp [announced, Scoping.declareIn, Scoping.enter]
  · obtain ⟨type, declared⟩ := known
    exact ⟨type, declaring.declares.keeps _ _ declared⟩
  · exact later.keeps.length_le _
  · refine (later.keeps.names _ (Nat.le_refl _)).trans ?_
    rw [List.take_length]
    exact names

/-- Where a body ends, the scope of the parameters is the innermost one. It is numbered as the next one
of the unit, and the scopes of blocks are numbered after it. -/
theorem Begins.numbered {prepared ended : Checker} {symbol : SymbolId} {parameters : Nat}
    {symbols : List SymbolId} {blocks : List ScopeId} {walked : List Use × Scoping}
    (begins : definition.Begins checker prepared symbol parameters)
    (walks : prepared.Walks ended symbols blocks walked)
    (top : checker.symbols.active = [unitScope]) :
    ended.symbols.active = [checker.scoping.opened, unitScope] ∧
      ended.closeScope.1 = checker.scoping.opened ∧
        ∃ count, ended.closeScope.1 :: blocks = List.range' checker.scoping.opened (count + 1) ∧
          ended.closeScope.2.symbols.scopes.length = checker.scoping.opened + (count + 1) := by
  have active : ended.symbols.active = [checker.scoping.opened, unitScope] := by
    have same := (begins.entered.trans walks.returns).scopes
    rw [Checker.scoping, SymbolTable.scopes_scoping] at same
    refine same.trans (congrArg (checker.scoping.opened :: ·) ?_)
    rw [← top]
    exact SymbolTable.scopes_scoping _
  have scope : ended.closeScope.1 = checker.scoping.opened := by
    change ended.symbols.current?.getD unitScope = _
    unfold SymbolTable.current?
    rw [active]
    rfl
  obtain ⟨count, numbered, reached⟩ := walks.scopes
  -- The blocks of the body have the numbers behind that of the parameters.
  refine ⟨active, scope, count, ?_, ?_⟩
  · rw [scope, numbered, begins.opened, List.range'_succ]
  · change ended.scoping.opened = _
    rw [reached, begins.opened]
    omega

/-- A definition at the top of a unit is checked to a function with its names. -/
theorem follows_elaborate {declared body rest : List Token}
    (declares : Run Declaration.Derives declared definition.declared body)
    (runs : Run Clause.Derives body definition.body rest)
    (proper : checker.scoping.Proper) (top : checker.symbols.active = [unitScope])
    (ready : checker.symbols.Ready) :
    let made := definition.elaborate checker
    made.2.scoping = (definition.uses checker.scoping).2 ∧
      checker.scoping.Returns made.2.scoping ∧ made.1.Settled made.2.symbols ∧
        made.1.Follows made.2.symbols definition (definition.uses checker.scoping).1 := by
  have begins := begins_announce declares proper
  rw [elaborate_eq, uses_eq, ← begins.scoping]
  generalize definition.announce checker = begun at begins
  obtain ⟨⟨symbol, parameters⟩, prepared⟩ := begun
  obtain ⟨walks, confined⟩ := Clause.Derives.traced_run runs prepared
    (proper.enter.returns begins.entered)
  let made := Clause.elaborateAll definition.body prepared
  have closing := made.2.follows_closeScope
  -- What has been declared before the body is declared behind it.
  have kept := walks.declares.trans closing.declares
  obtain ⟨active, scope, count, scopes, last⟩ := begins.numbered walks top
  obtain ⟨type, declared⟩ := begins.known
  have known := kept.keeps _ _ declared
  have used (use : Use) (member : use ∈ (Clause.usesAll definition.body prepared.scoping).1) :
      ∃ type, made.2.closeScope.2.symbols.declared? use.symbol = some (use.spelling, type) := by
    obtain ⟨type, declared⟩ := walks.known use member
    exact ⟨type, closing.declares.keeps _ _ declared⟩
  refine ⟨?_, ?_, ⟨begins.outermost, ?_, ?_, ?_, ?_, ?_, ?_⟩, ?_, ?_, walks.symbols, used⟩
  · exact closing.scoping.trans (congrArg Scoping.leave walks.scoping)
  · exact closing.scoping ▸ (begins.entered.trans walks.returns).around
  · intro statement member
    have inside := confined statement member
    rwa [← walks.active, active, ← scope] at inside
  · change (unitScope :: made.2.closeScope.1 :: Statement.scopesOfList made.1).Nodup
    rw [scopes]
    refine List.nodup_cons.mpr ⟨fun listed => ?_, List.nodup_range' 1⟩
    -- The scope of the unit is older than all that the function has opened.
    have first := Checker.lt_of_active proper (Checker.unitScope_active proper)
    have low := (List.mem_range'_1.mp listed).1
    exact Nat.lt_irrefl _ (Nat.lt_of_lt_of_le first low)
  · change ∀ scope ∈ made.2.closeScope.1 :: Statement.scopesOfList made.1,
      scope < made.2.closeScope.2.symbols.scopes.length
    rw [scopes, last]
    exact fun scope listed => (List.mem_range'_1.mp listed).2
  · change parameters ≤ (made.2.closeScope.2.symbols.symbolsOf made.2.closeScope.1).length
    rw [scope]
    exact Nat.le_trans begins.counted (kept.keeps.length_le _)
  · intro named member
    rw [← Option.isSome_map (f := Symbol.declaration)]
    change (made.2.closeScope.2.symbols.declared? named).isSome
    -- The function itself was known, and the symbols of the body are those of its uses.
    rcases List.mem_cons.mp member with rfl | member
    · exact known ▸ rfl
    · obtain ⟨use, present, rfl⟩ := List.mem_map.mp (walks.symbols.subset member)
      obtain ⟨type, found⟩ := used use present
      exact found ▸ rfl
  · exact (begins.declares.trans kept).ready ready
  · rw [SymbolTable.nameOf_eq_declared]
    exact known ▸ rfl
  · have names := (kept.keeps.names _ begins.counted).trans begins.accepted
    rwa [← scope] at names

end Definition

/-! Units. -/

/-- A checker between two global declarations, where only the scope of the unit is open. -/
structure Checker.Between (checker : Checker) : Prop where
  /-- The scope of the unit has been opened. -/
  proper : checker.scoping.Proper
  /-- No other is open. -/
  top : checker.symbols.active = [unitScope]
  /-- Functions can be lowered under what has been declared. -/
  ready : checker.symbols.Ready

namespace Checker

variable {old new : Checker}

/-- What returns to the scope of the unit is between declarations. -/
theorem Between.returns (between : old.Between) (returns : old.scoping.Returns new.scoping)
    (ready : new.symbols.Ready) : new.Between := by
  refine ⟨between.proper.returns returns, ?_, ready⟩
  have same := returns.scopes
  rw [scoping, scoping, SymbolTable.scopes_scoping, SymbolTable.scopes_scoping] at same
  exact same.trans between.top

/-- Placing symbols leaves a checker between declarations. -/
theorem Between.placed (between : old.Between) {symbols : SymbolTable}
    (alike : old.symbols.Alike symbols) (ready : symbols.Ready) :
    Between { old with symbols } := by
  have same : scoping { old with symbols } = old.scoping := alike.scoping
  exact ⟨same ▸ between.proper, alike.active.trans between.top, ready⟩

/-- A unit starts between declarations. -/
theorem between_start : Between {} := by
  refine ⟨Scoping.proper_start, rfl, ⟨?_, ?_⟩⟩
  · intro symbol member
    rw [SymbolTable.symbolsOf_start] at member
    cases member
  · intro scope _ symbol member
    rw [SymbolTable.symbolsOf_start] at member
    cases member

end Checker

/-- A variable or a function of the unit is declared there. -/
theorem GlobalDeclarator.follows_elaborate {specifier : Specifier} {start rest : List Token}
    {declarator : GlobalDeclarator} (derived : declarator.Derives specifier start rest)
    {checker : Checker} (between : checker.Between) :
    (declarator.elaborate specifier checker).2.scoping = declarator.declare checker.scoping ∧
      (declarator.elaborate specifier checker).2.Between := by
  cases derived with
  | @object _ _ object derived =>
    have follows := declares_variable object.name derived.stored checker between.proper
    refine ⟨follows.scoping, between.returns ?_ (follows.declares.ready between.ready)⟩
    exact follows.scoping ▸ Scoping.returns_declareAll checker.scoping [object.name]
  | @prototype name _ _ _ _ _ indirection parameters =>
    let opened := checker.openScope.2
    let listed := parameters.listed.mapM' Parameter.elaborate opened
    let closed := listed.2.closeParameters
    let type := Ty.function specifier indirection listed.1 parameters.variadic
    have opening : checker.Follows opened checker.scoping.enter := checker.follows_openScope
    have entered : opened.scoping.Proper := opening.scoping ▸ between.proper.enter
    have listing : opened.Follows listed.2 _ :=
      declares_parameters parameters.listed opened entered
    have accepted : opened.scoping.Returns listed.2.scoping :=
      listing.scoping ▸ Scoping.returns_declareAll _ _
    -- Without a body, the scope of the parameters ends here.
    have left : closed.scoping = listed.2.scoping.leave :=
      Checker.scoping_closeParameters (entered.returns accepted)
    have returned : checker.scoping.Returns closed.scoping := by
      rw [left]
      exact (opening.scoping ▸ accepted).around
    have ready : closed.symbols.Ready := Checker.ready_closeParameters
      ((opening.declares.trans listing.declares).ready between.ready)
    have declaring : closed.Follows (closed.declareFunction name.text type).2
        (closed.scoping.declareIn unitScope name.text) :=
      (Checker.follows_declareFunction (between.proper.returns returned)).1
    have settled := (between.returns returned ready).returns
      (declaring.scoping ▸ Scoping.returns_declareIn _ _ _) (declaring.declares.ready ready)
    refine ⟨?_, settled⟩
    refine declaring.scoping.trans ?_
    rw [left, listing.scoping, opening.scoping]
    rfl

/-- Variables and functions of the unit are declared there in order. -/
theorem GlobalDeclarator.follows_elaborateAll {specifier : Specifier}
    {declarators : List GlobalDeclarator}
    (each : ∀ declarator ∈ declarators, ∃ start rest, declarator.Derives specifier start rest)
    {checker : Checker} (between : checker.Between) :
    let declared := declarators.mapM' (GlobalDeclarator.elaborate specifier) checker
    declared.2.scoping = declarators.foldl GlobalDeclarator.declare checker.scoping ∧
      declared.2.Between := by
  induction declarators generalizing checker with
  | nil => exact ⟨rfl, between⟩
  | cons first rest ih =>
    obtain ⟨_, _, derived⟩ := each first (by simp)
    obtain ⟨scoping, left⟩ := first.follows_elaborate derived between
    obtain ⟨others, last⟩ := ih (fun declarator member => each declarator (by simp [member])) left
    exact ⟨others.trans (by rw [scoping]; rfl), last⟩

/-- Writing a function or not leaves others to be written. -/
theorem ready_generating {function : Function} {table : SymbolTable}
    (settled : function.Settled table) (checkOnly : Bool) (generated : Generated) :
    (generating checkOnly function table generated).1.Ready := by
  unfold generating
  split
  · exact settled.ready
  · exact Function.ready_last settled generated.nextLabel

/-- A function is handed on with the names of its definition, and can be lowered. -/
structure Handed.Follows (entry : Handed) (usage : Definition × List Use) : Prop where
  /-- The function can be lowered. -/
  settled : entry.function.Settled entry.symbols
  /-- It has the names of its definition. -/
  follows : entry.function.Follows entry.symbols usage.1 usage.2

/-- The functions of a unit are handed on in order, each with the names of its definition. -/
theorem Global.follows_elaborateAll (checkOnly : Bool) {start rest : List Token}
    {globals : List Global} (run : Run Global.Derives start globals rest) :
    ∀ (checker : Checker) (generated : Generated) (handed : List Handed), checker.Between →
      ∃ more, (Global.elaborateAll (recording checkOnly) globals checker (generated, handed)).2.2 =
          handed ++ more ∧
        List.Forall₂ (fun entry usage => Handed.Follows entry usage) more
          (Global.usages globals checker.scoping).1 := by
  induction run with
  | nil =>
    intro checker generated handed between
    exact ⟨[], (List.append_nil _).symm, .nil⟩
  | @cons start middle rest first others head tail ih =>
    intro checker generated handed between
    cases head with
    | @declaration _ _ _ _ _ declarators specified declared closes =>
      obtain ⟨scoping, left⟩ := GlobalDeclarator.follows_elaborateAll declared.each between
      obtain ⟨more, written, follows⟩ := ih _ generated handed left
      refine ⟨more, written, ?_⟩
      rw [scoping] at follows
      exact follows
    | definition specified stars named opens derived closes begins declares runs ends =>
      obtain ⟨scoping, returns, settled, follows⟩ := @Definition.follows_elaborate
        ⟨_, _, _, _, _, _⟩ checker _ _ _ declares runs between.proper between.top between.ready
      generalize Definition.mk _ _ _ _ _ _ = definition at scoping returns settled follows ⊢
      let made := definition.elaborate checker
      have alike := generating_alike checkOnly made.1 made.2.symbols generated
      have ready := ready_generating settled checkOnly generated
      -- What comes next starts from the table in which the symbols have been placed.
      have left := (between.returns returns settled.ready).placed alike ready
      obtain ⟨more, written, others⟩ := ih _
        (generating checkOnly made.1 made.2.symbols generated).2
        (handed ++ [⟨made.1, made.2.symbols, generated⟩]) left
      refine ⟨⟨made.1, made.2.symbols, generated⟩ :: more, ?_, .cons ⟨settled, follows⟩ ?_⟩
      · exact written.trans (List.append_assoc ..)
      · have same : Checker.scoping { made.2 with
            symbols := (generating checkOnly made.1 made.2.symbols generated).1 } =
              (definition.uses checker.scoping).2 := alike.scoping.trans scoping
        rw [same] at others
        exact others

end SmallC
