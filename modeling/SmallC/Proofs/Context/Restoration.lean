import SmallC.Proofs.Context.Brackets
import SmallC.Proofs.Context.Units
import SmallC.Proofs.Derivations.Recognition
import SmallC.Proofs.Parallel.Generation

/-! Reading restores its context: whatever is read of a function gives back the levels, the loops and the
scopes that it found, and a whole unit leaves nothing open. -/

namespace SmallC

/-- What is read of the body of a function. -/
inductive Procedure : Type → Type where
  /-- An expression. -/
  | expression : Procedure Expression
  /-- A chain of operands with operators of the given precedences. -/
  | operation (tiers : List Tier) : Procedure Expression
  /-- An operand with the operators before it. -/
  | prefixed : Procedure Expression
  /-- A chain of operators after an operand. -/
  | suffixed : Procedure Expression
  /-- An operand without operators. -/
  | primary : Procedure Expression
  /-- A condition in parentheses. -/
  | condition : Procedure Expression
  /-- An expression or an assignment. -/
  | assignment : Procedure Statement
  /-- A statement. -/
  | statement : Procedure Statement
  /-- The body of a loop. -/
  | loopBody : Procedure Statement
  /-- The statements of a block. -/
  | statements : Procedure (List Statement)

namespace Procedure

variable {α : Type}

/-- Read it, handed the levels that are left. -/
def read (levels : Nat) : Procedure α → Reading α
  | expression => Reading.expression levels
  | operation tiers => Reading.operation tiers levels
  | prefixed => Reading.prefixed levels
  | suffixed => Reading.suffixed levels
  | primary => Reading.primary levels
  | condition => Reading.condition levels
  | assignment => Reading.assignment levels
  | statement => Reading.statement levels
  | loopBody => Reading.insideLoop (Reading.statement levels)
  | statements => Reading.many (· ≠ .rightBrace) (Reading.statement levels)

/-- Read it, counting the levels that are open. -/
def count (clock : Nat) : Procedure α → Counted α
  | expression => Counted.expression clock
  | operation tiers => Counted.operation tiers clock
  | prefixed => Counted.prefixed clock
  | suffixed => Counted.suffixed clock
  | primary => Counted.primary clock
  | condition => Counted.condition clock
  | assignment => Counted.assignment clock
  | statement => Counted.statement clock
  | loopBody => Counted.insideLoop (Counted.statement clock)
  | statements => Counted.many (· ≠ .rightBrace) (Counted.statement clock)

theorem restores (procedure : Procedure α) {clock : Nat} {before : Context}
    (enough : before.levels ≤ clock) :
    Counted.Restores before (procedure.count clock) (procedure.read before.levels) := by
  cases procedure with
  | expression => exact Counted.restores_expression clock before enough
  | operation tiers => exact Counted.restores_operation tiers clock before enough
  | prefixed => exact Counted.restores_prefixed clock before enough
  | suffixed => exact Counted.restores_suffixed clock before enough
  | primary => exact Counted.restores_primary clock before enough
  | condition => exact Counted.restores_condition enough
  | assignment => exact Counted.restores_assignment enough
  | statement => exact Counted.restores_statement clock before enough
  | loopBody => exact .insideLoop (Counted.restores_statement clock before.turn enough)
  | statements => exact .many _ (Counted.restores_statement clock before enough)

end Procedure

/-- A step of reading ends in the context that it started from, or fails with the same levels and loops
open. -/
def Meter.Restored {α : Type} (meter : Meter) : EStateM.Result Failure Meter α → Prop
  | .ok _ after => after.context = meter.context
  | .error _ after =>
    after.depth = meter.depth ∧ after.reader.checker.loops = meter.reader.checker.loops

/-- A count of the levels finds again what it started from. -/
theorem Counted.Tallies.restored {α : Type} {meter : Meter} {counted : Counted α}
    {reading : Reading α} (restores : Restores meter.context counted reading) :
    counted meter = Counted.plain reading meter ∧ meter.Restored (counted meter) := by
  have done := restores meter.reader rfl
  unfold Counted.plain
  -- A strict tally gives the depth back in both cases; a failure says nothing about the scopes.
  cases read : reading meter.reader with
  | ok value next =>
    rw [read] at done
    obtain ⟨depth, ran, context, given⟩ := done
    obtain rfl := given trivial
    change counted meter = _ at ran
    rw [ran]
    exact ⟨rfl, context⟩
  | error failure next =>
    rw [read] at done
    obtain ⟨depth, ran, loops, given⟩ := done
    obtain rfl := given trivial
    change counted meter = _ at ran
    rw [ran]
    exact ⟨rfl, rfl, loops⟩

/-- A consumer that changes nothing but the places of symbols. -/
def PlacesOnly {σ : Type} (consume : Consumer σ) : Prop :=
  ∀ function symbols output, (consume function symbols output).1.bare = symbols.bare

theorem placesOnly_generating (checkOnly : Bool) : PlacesOnly (generating checkOnly) := by
  intro function symbols generated
  unfold generating
  split
  · rfl
  · exact (generateFunction_alikeBut function symbols generated).bare

namespace Checker

/-- Nothing is open but the unit. -/
structure Outside (checker : Checker) : Prop where
  /-- The table is tidy. -/
  tidy : checker.symbols.Tidy
  /-- The scope of the unit is the current one. -/
  active : checker.symbols.active = [unitScope]
  /-- No loop is open. -/
  loops : checker.loops = 0

theorem outside_start : ({} : Checker).Outside := ⟨tidy_start, rfl, rfl⟩

/-- A checker has come through the requests of a unit, back to where nothing is open but the unit. -/
structure Returned (start : Checker) (requests : List Request) (checker : Checker) : Prop where
  /-- The requests have been made. -/
  history : checker.core = (start.after requests).core
  /-- Nothing is open but the unit. -/
  outside : checker.Outside
  /-- Each scope that was opened has been closed once. -/
  closed : ∃ count, checker.symbols.scopes.length = start.symbols.scopes.length + count ∧
    (start.closing requests).Perm (List.range' start.symbols.scopes.length count)
  /-- The scopes of prototypes are empty. -/
  emptied : ∀ scope ∈ start.emptying requests, checker.symbols.symbolsOf scope = []
  /-- What is visible is a symbol of the unit. -/
  visible : ∀ name symbol, checker.symbols.lookup? name = some symbol → symbol.scope = unitScope

variable {start checker : Checker} {requests : List Request}

/-- Whether a table is tidy has nothing to do with places. -/
theorem tidy_bare {table : SymbolTable} : table.bare.Tidy ↔ table.Tidy := by
  -- Being tidy is a matter of names and of scopes, and both stay when places are left out.
  have names (scope : ScopeId) : table.bare.namesOf scope = table.namesOf scope := by
    unfold SymbolTable.namesOf
    rw [SymbolTable.symbolsOf_bare, List.map_map]
    rfl
  have same : table.bare.scoping = table.scoping := by
    unfold SymbolTable.scoping
    simp only [names]
    simp [SymbolTable.bare]
  constructor
  · rintro ⟨proper, distinct⟩
    exact ⟨same ▸ proper, fun scope => names scope ▸ distinct scope⟩
  · rintro ⟨proper, distinct⟩
    exact ⟨same ▸ proper, fun scope => names scope ▸ distinct scope⟩

/-- Requests that come in pairs lead back to where nothing is open but the unit. -/
theorem Outside.returned (outside : start.Outside) (bracketed : Bracketed requests)
    (history : checker.core = (start.after requests).core) (loops : checker.loops = 0) :
    start.Returned requests checker := by
  have closes := bracketed.closes outside.tidy
  have bare : checker.symbols.bare = (start.after requests).symbols.bare :=
    congrArg Checker.symbols history
  have active : checker.symbols.active = [unitScope] :=
    (congrArg SymbolTable.active bare).trans (closes.active.trans outside.active)
  have scopes : checker.symbols.scopes.length = (start.after requests).symbols.scopes.length := by
    simpa [SymbolTable.bare] using congrArg (fun table => table.scopes.length) bare
  obtain ⟨count, opened, closing⟩ := closes.closing
  -- The unit is not closed, because the scopes that are closed were opened later.
  have inside : unitScope ∉ start.closing requests := by
    intro closed
    have later := (List.mem_range'_1.mp (closing.mem_iff.mp closed)).1
    have first := outside.tidy.opened (Checker.unitScope_active outside.tidy.proper)
    exact absurd later (Nat.not_le_of_lt first)
  have tidy : checker.symbols.Tidy := tidy_bare.mp (bare ▸ tidy_bare.mpr closes.tidy)
  refine ⟨history, ⟨tidy, active, loops⟩, ⟨count, scopes.trans opened, closing⟩, ?_, ?_⟩
  · intro scope emptied
    have gone := (gone_of_emptying outside.tidy inside emptied).empty
    have same := congrArg (SymbolTable.symbolsOf · scope) bare
    simp only [SymbolTable.symbolsOf_bare, gone] at same
    exact List.map_eq_nil_iff.mp same
  · intro name symbol found
    rw [SymbolTable.lookup?_eq] at found
    have within := Scoping.denotes_mem found
    rw [SymbolTable.scopes_scoping, active] at within
    exact List.mem_singleton.mp within

end Checker

/-- Whatever is read of a function gives its context back, a failure only the levels and the loops, and
its meter is where handing the levels down would leave it. A unit ends without open levels, and where it
is read to its end it has opened and closed its scopes in pairs and shows no symbols but its own. -/
theorem reading_restores {σ : Type} {consume : Consumer σ} (places : PlacesOnly consume)
    {start : Checker} (outside : start.Outside) :
    (∀ {α : Type} (procedure : Procedure α) (meter : Meter) (clock : Nat),
      meter.context.levels ≤ clock →
        procedure.count clock meter =
            Counted.plain (procedure.read meter.context.levels) meter ∧
          meter.Restored (procedure.count clock meter)) ∧
    ∀ (tokens : List Token) (limit : Nat) (output : σ),
      let reader := Reader.before tokens limit start
      let outcome := readDeclarations consume reader.remaining reader output
      Counted.readDeclarations consume reader.remaining ⟨reader, 0⟩ output = (outcome, 0) ∧
        (outcome.failure? = none → ∃ globals, DerivesUnit reader.outlook.tokens globals ∧
          start.Returned (globals.flatMap Global.requests) outcome.reader.checker) := by
  refine ⟨fun procedure meter clock enough => (procedure.restores enough).restored, ?_⟩
  intro tokens limit output reader outcome
  -- The token that is taken first is no part of the context.
  have begun : Meter.context ⟨reader, 0⟩ = ⟨0, limit, [unitScope], 0⟩ := by
    rw [← outside.active, ← outside.loops]
    cases tokens <;> rfl
  have active (function : Function) (symbols : SymbolTable) (output : σ) :
      (consume function symbols output).1.active = symbols.active := by
    have bare := congrArg SymbolTable.active (places function symbols output)
    exact bare
  obtain ⟨same, given⟩ :=
    Counted.readDeclarations_eq active ⟨rfl, rfl⟩ reader.remaining reader output begun
  refine ⟨same, fun success => ?_⟩
  have loops : outcome.reader.checker.loops = 0 := congrArg Context.loops (given success)
  obtain ⟨globals, derived, checked⟩ := readDeclarations_derives consume _ reader output success
  refine ⟨globals, derived, outside.returned (.flatMap Global.bracketed_requests) ?_ loops⟩
  -- Reports and their places are no part of what requests depend on.
  have history := Global.core_elaborateAll places globals reader.checker.unplaced output
  rw [checked] at history
  refine history.trans (Checker.core_after_congr ?_ _)
  cases tokens <;> rfl

/-- A function that is declared and then defined, with a block inside of a loop. -/
def spinSource : String :=
  "int f(int n); int f(int n) { while (n) { int m; n = f(n - 1); } return n; }"

set_option maxRecDepth 4000 in
/-- The source is read to its end and leaves nothing open; an operand with too many parentheses around it
fails at the limit, two levels deep as before. -/
theorem reading_restores_spin :
    (∃ tokens globals, tokensOf spinSource = .ok tokens ∧
      DerivesUnit (Reader.before tokens 8 {}).outlook.tokens globals ∧
      ({} : Checker).Returned (globals.flatMap Global.requests)
        (readUnit (generating false) tokens 8 {}).reader.checker) ∧
    ∃ (reader : Reader) (failure : Failure) (after : Meter),
      Counted.statement 3 ⟨reader, 2⟩ = .error failure after ∧ after.depth = 2 := by
  have restores := reading_restores (placesOnly_generating false) Checker.outside_start
  constructor
  · have lexed : tokensOf spinSource = .ok ((tokensOf spinSource).toOption.getD []) := by cbv
    have read : (readUnit (generating false) ((tokensOf spinSource).toOption.getD []) 8
        {}).failure? = none := by cbv
    obtain ⟨globals, derived, returned⟩ := (restores.2 _ 8 {}).2 read
    exact ⟨_, globals, lexed, derived, returned⟩
  · let reader := Reader.before ((tokensOf "((n));").toOption.getD []) 5 {}
    have failed : ((Counted.statement 3).run' ⟨reader, 2⟩).isNone = true := by cbv
    have given := (restores.1 .statement ⟨reader, 2⟩ 3 (Nat.le_refl 3)).2
    change Meter.Restored ⟨reader, 2⟩ (Counted.statement 3 ⟨reader, 2⟩) at given
    cases ended : Counted.statement 3 ⟨reader, 2⟩ with
    | ok value after => simp [EStateM.run', EStateM.run, ended] at failed
    | error failure after =>
      rw [ended] at given
      exact ⟨reader, failure, after, ended, given.1⟩

end SmallC
