import SmallC.Proofs.Tables.Steps

/-! Requests to a checker: declarations are stable and unique, and what has been reported as undeclared
is not reported again where it is known since. -/

namespace SmallC

/-- What a checker may be asked about names. -/
inductive Request where
  /-- Put later reports at another place. -/
  | moveTo (position : Position)
  /-- Open a scope inside the current one. -/
  | openScope
  /-- Close the current scope. -/
  | closeScope
  /-- Close the current scope and drop its symbols. -/
  | closeParameters
  /-- Declare a variable in the current scope. -/
  | declareVariable (name : String) (type : Ty)
  /-- Declare a function in the unit. -/
  | declareFunction (name : String) (type : Ty)
  /-- Declare a function that has a body. -/
  | defineFunction (name : String) (type : Ty)
  /-- Look up what a name stands for. -/
  | resolve (name : String)

namespace Request

/-- The symbol that a checker answers with, if it is asked for one, and what becomes of the checker. -/
def perform : Request → Checker → Option SymbolId × Checker
  | .moveTo position, checker => (none, checker.moveTo position)
  | .openScope, checker => (none, checker.openScope.2)
  | .closeScope, checker => (none, checker.closeScope.2)
  | .closeParameters, checker => (none, checker.closeParameters)
  | .declareVariable name type, checker => (checker.declareVariable name type).map some id
  | .declareFunction name type, checker => (checker.declareFunction name type).map some id
  | .defineFunction name type, checker => (checker.defineFunction name type).map some id
  | .resolve name, checker => (checker.resolve name).map some id

/-- The name that a symbol is asked for. -/
def name? : Request → Option String
  | .declareVariable name _ | .declareFunction name _ | .defineFunction name _ | .resolve name =>
    some name
  | .moveTo _ | .openScope | .closeScope | .closeParameters => none

/-- The scope that a declaration goes to. -/
def scope? (checker : Checker) : Request → Option ScopeId
  | .declareVariable .. => some checker.current
  | .declareFunction .. | .defineFunction .. => some unitScope
  | .moveTo _ | .openScope | .closeScope | .closeParameters | .resolve _ => none

/-- The scope that a request closes. -/
def closes? (checker : Checker) : Request → Option ScopeId
  | .closeScope | .closeParameters => some checker.current
  | .moveTo _ | .openScope | .declareVariable .. | .declareFunction .. | .defineFunction .. |
    .resolve _ => none

/-- The scope that a request closes for good, with all its symbols. -/
def empties? (checker : Checker) : Request → Option ScopeId
  | .closeParameters => some checker.current
  | .moveTo _ | .openScope | .closeScope | .declareVariable .. | .declareFunction .. |
    .defineFunction .. | .resolve _ => none

end Request

namespace Checker

/-- A checker after requests. -/
def after (checker : Checker) (requests : List Request) : Checker :=
  requests.foldl (fun reached request => (request.perform reached).2) checker

/-- What is noted along requests, each at the checker that it is made to. -/
def along {α : Type} (note : Checker → Request → Option α) : Checker → List Request → List α
  | _, [] => []
  | checker, request :: rest =>
    (note checker request).toList ++ along note (request.perform checker).2 rest

/-- The scopes that requests close, in order. -/
def closing (checker : Checker) (requests : List Request) : List ScopeId :=
  checker.along Request.closes? requests

/-- The scopes that requests empty, in order. -/
def emptying (checker : Checker) (requests : List Request) : List ScopeId :=
  checker.along Request.empties? requests

/-- A request is answered with a symbol of the name, in the right scope. -/
structure Obeys (checker : Checker) (request : Request) : Prop where
  /-- The symbol has the name. -/
  named : ∀ name, request.name? = some name → ∃ symbol type,
    (request.perform checker).1 = some symbol ∧
      (request.perform checker).2.symbols.declared? symbol = some (name, type)
  /-- What is declared is in the scope that it goes to, the first declaration being the one that
  stays. -/
  placed : ∀ name scope, request.name? = some name → request.scope? checker = some scope →
    ∃ symbol, (request.perform checker).1 = some symbol ∧ symbol.scope = scope ∧
      ∀ existing, checker.symbols.find? scope name = some existing → symbol = existing

/-- Declarations are stable and unique along requests, and an undeclared name is reported once. -/
structure Orderly (start : Checker) (requests : List Request) : Prop where
  /-- The names within each scope differ. -/
  distinct : ∀ scope, ((start.after requests).symbols.namesOf scope).Nodup
  /-- A symbol keeps its id, its name and its type, and stays the one that its name finds, as long as
  its scope is not emptied. -/
  stable : ∀ early late, requests = early ++ late → ∀ symbol name type,
    (start.after early).symbols.declared? symbol = some (name, type) →
    symbol.scope ∉ (start.after early).emptying late →
      (start.after requests).symbols.declared? symbol = some (name, type) ∧
        (start.after requests).symbols.find? symbol.scope name = some symbol
  /-- The scope of the unit is never emptied. -/
  kept : unitScope ∉ start.emptying requests
  /-- Every request is answered with the right symbol. -/
  answers : ∀ early request late, requests = early ++ request :: late →
    (start.after early).Obeys request
  /-- A name that has been reported as undeclared is not reported again until the scope is closed
  that was current. -/
  once : ∀ early middle late name,
    requests = early ++ .resolve name :: middle ++ .resolve name :: late →
    ((start.after early).resolve name).2.reports =
      (start.after early).reports ++ [⟨.undeclared name, (start.after early).position⟩] →
    (start.after early).current ∉
      (start.after (early ++ [.resolve name])).closing middle →
    let reached := start.after (early ++ .resolve name :: middle)
    (reached.resolve name).2.reports = reached.reports

variable {checker : Checker} {request : Request} {name : String} {type : Ty} {scope : ScopeId}

section Steps

open SymbolTable (Step Tidy)

/-- The current scope is that of the table, where there is one. -/
theorem current?_eq (tidy : checker.symbols.Tidy) :
    checker.symbols.current? = some checker.current := by
  have active := current_active tidy.proper
  unfold current SymbolTable.current? at *
  cases held : checker.symbols.active with
  | nil => simp [held] at active
  | cons scope outer => rfl

/-- A declaration enters a name that its scope does not have, and does nothing else. -/
theorem step_declareVariable (tidy : checker.symbols.Tidy) (name : String) (type : Ty) :
    checker.symbols.Step none none (checker.declareVariable name type).2.symbols := by
  unfold declareVariable
  dsimp only
  cases found : checker.symbols.find? checker.current name with
  | none => exact .enters (current_active tidy.proper) found
  | some existing =>
    dsimp only
    split
    · exact .stays
    · split <;> exact .stays

theorem step_declareFunction (tidy : checker.symbols.Tidy) (name : String) (type : Ty) :
    checker.symbols.Step none none (checker.declareFunction name type).2.symbols := by
  unfold declareFunction
  cases found : checker.symbols.find? unitScope name with
  | none => exact .enters (unitScope_active tidy.proper) found
  | some existing =>
    dsimp only
    split <;> exact .stays

theorem step_defineFunction (tidy : checker.symbols.Tidy) (name : String) (type : Ty) :
    checker.symbols.Step none none (checker.defineFunction name type).2.symbols := by
  -- That a function has a body, and a report of another one, are not part of the table.
  have declares (other : Checker) (same : other.symbols = checker.symbols) :
      checker.symbols.Step none none (other.declareDefined name type).2.symbols := by
    rw [← same] at tidy ⊢
    exact @step_declareFunction { other with defined := name :: other.defined } tidy name type
  unfold defineFunction
  split
  · dsimp only
    split
    · exact .stays
    · exact declares _ rfl
  · exact declares _ rfl

theorem step_resolve (tidy : checker.symbols.Tidy) (name : String) :
    checker.symbols.Step none none (checker.resolve name).2.symbols := by
  unfold resolve
  cases found : checker.symbols.lookup? name with
  | some symbol => exact .stays
  | none =>
    -- A name that no scope in force has is in particular not in the current one.
    have current := current_active tidy.proper
    exact .enters current (List.findSome?_eq_none_iff.mp found _ current)

/-- A request does to the table what one step does. -/
theorem step_perform (tidy : checker.symbols.Tidy)
    (inside : request.closes? checker ≠ some unitScope) :
    checker.symbols.Step (request.closes? checker) (request.empties? checker)
      (request.perform checker).2.symbols := by
  cases request with
  | moveTo => exact .stays
  | openScope => exact .opens
  | closeScope => exact .closes (current?_eq tidy)
  | closeParameters =>
    have current := current?_eq tidy
    -- The scope of the unit is not closed here, so it is the current one that is emptied.
    have inner : checker.closeScope.1 ≠ unitScope := fun same => inside (congrArg some same)
    unfold Request.perform closeParameters
    dsimp only
    rw [if_neg inner]
    exact .empties current
  | declareVariable name type => exact step_declareVariable tidy name type
  | declareFunction name type => exact step_declareFunction tidy name type
  | defineFunction name type => exact step_defineFunction tidy name type
  | resolve name => exact step_resolve tidy name

end Steps

section Obedience

/-- A declaration is answered with the first symbol of the name in the scope. -/
structure Places (checker : Checker) (name : String) (scope : ScopeId)
    (answer : SymbolId × Checker) : Prop where
  /-- The symbol has the name. -/
  named : ∃ type, answer.2.symbols.declared? answer.1 = some (name, type)
  /-- The symbol is in the scope. -/
  inside : answer.1.scope = scope
  /-- It is the one that was there before, if there was one. -/
  first : ∀ existing, checker.symbols.find? scope name = some existing → answer.1 = existing

/-- What a scope does not have is entered there. -/
theorem places_enter (present : scope < checker.symbols.scopes.length)
    (absent : checker.symbols.find? scope name = none) :
    checker.Places name scope (checker.enter scope name type) where
  named := ⟨type, SymbolTable.declared_insert_self { name, type } present⟩
  inside := rfl
  first := by simp [absent]

/-- What a scope has is found there, whatever is reported of it. -/
theorem places_found {existing : SymbolId} {reached : Checker}
    (found : checker.symbols.find? scope name = some existing)
    (same : reached.symbols = checker.symbols) :
    checker.Places name scope (existing, reached) where
  named := same ▸ SymbolTable.declared_of_find found
  inside := by
    obtain ⟨slot, -, rfl⟩ := Option.map_eq_some_iff.mp found
    rfl
  first := by simp [found]

theorem places_declareVariable (tidy : checker.symbols.Tidy) (name : String) (type : Ty) :
    checker.Places name checker.current (checker.declareVariable name type) := by
  unfold declareVariable
  dsimp only
  cases found : checker.symbols.find? checker.current name with
  | none => exact places_enter (tidy.opened (current_active tidy.proper)) found
  | some existing =>
    dsimp only
    split
    · exact places_found found rfl
    · split <;> exact places_found found rfl

theorem places_declareFunction (tidy : checker.symbols.Tidy) (name : String) (type : Ty) :
    checker.Places name unitScope (checker.declareFunction name type) := by
  unfold declareFunction
  cases found : checker.symbols.find? unitScope name with
  | none => exact places_enter (tidy.opened (unitScope_active tidy.proper)) found
  | some existing =>
    dsimp only
    split <;> exact places_found found rfl

theorem places_defineFunction (tidy : checker.symbols.Tidy) (name : String) (type : Ty) :
    checker.Places name unitScope (checker.defineFunction name type) := by
  -- That the name is defined now is noted outside the table.
  have declares (other : Checker) (same : other.symbols = checker.symbols) :
      checker.Places name unitScope (other.declareDefined name type) := by
    have noted : ({ other with defined := name :: other.defined } : Checker).symbols.Tidy :=
      same.symm ▸ tidy
    have places := places_declareFunction noted name type
    exact ⟨places.named, places.inside, fun existing found => places.first existing (same ▸ found)⟩
  unfold defineFunction
  split
  · dsimp only
    split
    · next existing found => exact places_found found rfl
    · exact declares _ rfl
  · exact declares _ rfl

/-- A name is resolved to a symbol of that name. -/
theorem named_resolve (tidy : checker.symbols.Tidy) (name : String) : ∃ type,
    (checker.resolve name).2.symbols.declared? (checker.resolve name).1 = some (name, type) := by
  unfold resolve
  cases found : checker.symbols.lookup? name with
  | some symbol => exact SymbolTable.declared_of_lookup found
  | none =>
    have present := tidy.opened (current_active tidy.proper)
    exact ⟨.error, SymbolTable.declared_insert_self { name, type := .error } present⟩

/-- A request for a declaration is answered as the declaration is. -/
theorem Places.obeys {answer : SymbolId × Checker} (places : checker.Places name scope answer)
    (performed : request.perform checker = answer.map some id) (asked : request.name? = some name)
    (goes : request.scope? checker = some scope) : checker.Obeys request := by
  obtain ⟨⟨type, known⟩, inside, first⟩ := places
  refine ⟨fun other named => ?_, fun other place named aimed => ?_⟩
  · obtain rfl := Option.some.inj (asked.symm.trans named)
    rw [performed]
    exact ⟨_, type, rfl, known⟩
  · obtain rfl := Option.some.inj (asked.symm.trans named)
    obtain rfl := Option.some.inj (goes.symm.trans aimed)
    rw [performed]
    exact ⟨_, rfl, inside, first⟩

/-- Every request is answered with the right symbol. -/
theorem obeys_perform (tidy : checker.symbols.Tidy) (request : Request) :
    checker.Obeys request := by
  cases request with
  | moveTo | openScope | closeScope | closeParameters => exact ⟨nofun, nofun⟩
  | declareVariable name type => exact (places_declareVariable tidy name type).obeys rfl rfl rfl
  | declareFunction name type => exact (places_declareFunction tidy name type).obeys rfl rfl rfl
  | defineFunction name type => exact (places_defineFunction tidy name type).obeys rfl rfl rfl
  | resolve name =>
    obtain ⟨declared, known⟩ := named_resolve tidy name
    refine ⟨?_, nofun⟩
    rintro _ ⟨⟩
    exact ⟨_, declared, rfl, known⟩

end Obedience

section Runs

@[simp] theorem after_append (checker : Checker) (early late : List Request) :
    checker.after (early ++ late) = (checker.after early).after late :=
  List.foldl_append

@[simp] theorem along_append {α : Type} (note : Checker → Request → Option α) (checker : Checker)
    (early late : List Request) : checker.along note (early ++ late) =
      checker.along note early ++ (checker.after early).along note late := by
  induction early generalizing checker with
  | nil => rfl
  | cons request rest ih =>
    rw [List.cons_append, along, ih, along, List.append_assoc]
    rfl

/-- What is not noted along requests is not noted of the first one, and not of the others. -/
theorem not_mem_along_cons {α : Type} {note : Checker → Request → Option α} {rest : List Request}
    {item : α} (absent : item ∉ checker.along note (request :: rest)) :
    note checker request ≠ some item ∧ item ∉ (request.perform checker).2.along note rest := by
  rw [along, List.mem_append, not_or, Option.mem_toList] at absent
  exact absent

/-- What is emptied is closed. -/
theorem emptying_subset (checker : Checker) (requests : List Request) :
    checker.emptying requests ⊆ checker.closing requests := by
  induction requests generalizing checker with
  | nil => exact List.Subset.refl _
  | cons request rest ih =>
    have here : (request.empties? checker).toList ⊆ (request.closes? checker).toList := by
      cases request <;> simp [Request.empties?, Request.closes?]
    exact List.append_subset.mpr ⟨List.subset_append_of_subset_left _ here,
      List.subset_append_of_subset_right _ (ih _)⟩

/-- Requests leave a table tidy as long as the scope of the unit is not closed. -/
theorem tidy_after (tidy : checker.symbols.Tidy) {requests : List Request}
    (inside : unitScope ∉ checker.closing requests) : (checker.after requests).symbols.Tidy := by
  induction requests generalizing checker with
  | nil => exact tidy
  | cons request rest ih =>
    obtain ⟨here, later⟩ := not_mem_along_cons inside
    exact ih ((step_perform tidy here).tidy tidy here) later

/-- A declaration stays through requests as long as its scope is not emptied. -/
theorem declared_after (tidy : checker.symbols.Tidy) {requests : List Request}
    (inside : unitScope ∉ checker.closing requests) {symbol : SymbolId}
    {declaration : String × Ty} (known : checker.symbols.declared? symbol = some declaration)
    (kept : symbol.scope ∉ checker.emptying requests) :
    (checker.after requests).symbols.declared? symbol = some declaration := by
  induction requests generalizing checker with
  | nil => exact known
  | cons request rest ih =>
    obtain ⟨here, later⟩ := not_mem_along_cons inside
    obtain ⟨keeps, keep⟩ := not_mem_along_cons kept
    have step := step_perform tidy here
    exact ih (step.tidy tidy here) later (step.declared known keeps) keep

/-- A scope stays in force through requests as long as none of them closes it. -/
theorem active_after (tidy : checker.symbols.Tidy) {requests : List Request}
    (inside : unitScope ∉ checker.closing requests) (active : scope ∈ checker.symbols.active)
    (stays : scope ∉ checker.closing requests) :
    scope ∈ (checker.after requests).symbols.active := by
  induction requests generalizing checker with
  | nil => exact active
  | cons request rest ih =>
    obtain ⟨here, later⟩ := not_mem_along_cons inside
    obtain ⟨stay, remains⟩ := not_mem_along_cons stays
    have step := step_perform tidy here
    exact ih (step.tidy tidy here) later (step.active active stay) remains

/-- A name that is reported as undeclared is known in the current scope from then on. -/
theorem declared_of_reported (tidy : checker.symbols.Tidy)
    (reported : (checker.resolve name).2.reports =
      checker.reports ++ [⟨.undeclared name, checker.position⟩]) :
    ∃ symbol, symbol.scope = checker.current ∧
      (checker.resolve name).2.symbols.declared? symbol = some (name, .error) := by
  unfold resolve at reported ⊢
  cases found : checker.symbols.lookup? name with
  | some symbol => simp [found] at reported
  | none =>
    have present := tidy.opened (current_active tidy.proper)
    exact ⟨_, rfl, SymbolTable.declared_insert_self { name, type := .error } present⟩

/-- A name that a scope in force has is not reported. -/
theorem resolve_silent (tidy : checker.symbols.Tidy) {symbol : SymbolId}
    (active : symbol.scope ∈ checker.symbols.active)
    (known : checker.symbols.declared? symbol = some (name, type)) :
    (checker.resolve name).2.reports = checker.reports := by
  unfold resolve
  cases found : checker.symbols.lookup? name with
  | some symbol => rfl
  | none =>
    have absent := List.findSome?_eq_none_iff.mp found _ active
    rw [tidy.find?_eq known] at absent
    cases absent

theorem tidy_start : ({} : Checker).symbols.Tidy := by
  refine ⟨Scoping.proper_start, fun scope => ?_⟩
  have empty : ({} : Checker).symbols.namesOf scope = [] := by
    exact congrArg _ (SymbolTable.symbolsOf_start scope)
  rw [empty]
  exact List.nodup_nil

end Runs

end Checker

/-- Whatever a new checker is asked for, in whatever order, its declarations are stable and unique, and
an undeclared name is reported once, unless the scope of the unit is closed. -/
theorem requests_orderly (reports : List Report) (requests : List Request)
    (inside : unitScope ∉ ({ reports } : Checker).closing requests) :
    ({ reports } : Checker).Orderly requests := by
  have start : ({ reports } : Checker).symbols.Tidy := Checker.tidy_start
  have tidy := Checker.tidy_after start inside
  -- At every point of the run the table is tidy, and the rest of the run leaves the unit open.
  have between {early late : List Request} (split : requests = early ++ late) :
      (({ reports } : Checker).after early).symbols.Tidy ∧
        unitScope ∉ (({ reports } : Checker).after early).closing late := by
    rw [split, Checker.closing, Checker.along_append, List.mem_append, not_or] at inside
    exact ⟨Checker.tidy_after start inside.1, inside.2⟩
  refine ⟨tidy.distinct, ?_, fun kept => inside (Checker.emptying_subset _ _ kept), ?_, ?_⟩
  · rintro early late split symbol name type known kept
    obtain ⟨reached, later⟩ := between split
    have stays := Checker.declared_after reached later known kept
    rw [← Checker.after_append, ← split] at stays
    exact ⟨stays, tidy.find?_eq stays⟩
  · intro early request late split
    exact Checker.obeys_perform (between split).1 request
  · intro early middle late name split reported unclosed
    obtain ⟨before, -⟩ := between (split.trans (List.append_assoc _ _ _))
    have resumed : requests = (early ++ [.resolve name]) ++ (middle ++ .resolve name :: late) := by
      simp [split]
    obtain ⟨known, later⟩ := between resumed
    rw [Checker.closing, Checker.along_append, List.mem_append, not_or] at later
    -- The name is entered where it is reported, and it stays there as long as the scope is open.
    obtain ⟨symbol, here, declared⟩ := Checker.declared_of_reported before reported
    have entered := (Checker.step_resolve before name).active
      (Checker.current_active before.proper) nofun
    rw [← here] at unclosed entered
    rw [Checker.after_append] at known later unclosed
    have stays := Checker.declared_after known later.1 declared
      fun emptied => unclosed (Checker.emptying_subset _ _ emptied)
    have active := Checker.active_after known later.1 entered unclosed
    dsimp only
    rw [Checker.after_append]
    exact Checker.resolve_silent (Checker.tidy_after known later.1) active stays

/-- An unknown name is reported in a scope, not in one inside it, and again once the scope is closed. -/
theorem requests_orderly_unknown :
    let requests : List Request := [.openScope, .resolve "n", .openScope, .resolve "n", .closeScope,
      .declareVariable "a" .int, .closeParameters, .declareFunction "f" .int, .resolve "n"]
    (({} : Checker).closing requests = [2, 1] ∧ ({} : Checker).emptying requests = [1] ∧
      (({} : Checker).after requests).reports.map Report.problem =
        [.undeclared "n", .undeclared "n"]) ∧
      ({} : Checker).Orderly requests := by
  refine ⟨⟨by cbv, by cbv, by cbv⟩, requests_orderly [] _ ?_⟩
  decide

end SmallC
