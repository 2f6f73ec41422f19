import SmallC.Proofs.Context.Histories

/-! Scopes that are opened and closed in pairs: each is closed once, and what has been emptied stays
empty. -/

namespace SmallC

namespace SymbolTable

/-- A scope that is closed for good, without symbols. -/
structure Gone (table : SymbolTable) (scope : ScopeId) : Prop where
  /-- It was opened once. -/
  opened : scope < table.scopes.length
  /-- It is in force no more. -/
  closed : scope ∉ table.active
  /-- It has no symbols. -/
  empty : table.symbolsOf scope = []

variable {table new : SymbolTable} {closed? emptied? : Option ScopeId} {scope : ScopeId}

@[simp] theorem length_insert (table : SymbolTable) (scope : ScopeId) (symbol : Symbol) :
    (table.insert scope symbol).2.scopes.length = table.scopes.length :=
  List.length_modify ..

@[simp] theorem length_discard (table : SymbolTable) (scope : ScopeId) :
    (table.discard scope).scopes.length = table.scopes.length :=
  List.length_modify ..

/-- What is emptied is gone. -/
theorem Step.gone (step : table.Step closed? (some scope) new) (tidy : table.Tidy) :
    new.Gone scope := by
  -- Only emptying names a scope; it was current, so it has been opened and is no longer active.
  cases step with
  | empties current =>
    refine ⟨?_, tidy.not_mem_closeScope current, ?_⟩
    · rw [length_discard]
      exact tidy.opened (List.mem_of_mem_head? current)
    · unfold discard
      rw [symbolsOf_modifySymbols]
      split
      · rfl
      · next elsewhere =>
        exact symbolsOf_absent (Nat.le_of_not_lt fun within => elsewhere ⟨rfl, within⟩)

/-- What is gone does not come back. -/
theorem Gone.step (gone : table.Gone scope) (step : table.Step closed? emptied? new) :
    new.Gone scope := by
  obtain ⟨opened, closed, empty⟩ := gone
  cases step with
  | stays => exact ⟨opened, closed, empty⟩
  | opens =>
    refine ⟨?_, ?_, ?_⟩
    · exact Nat.lt_of_lt_of_le opened (by simp [openScope])
    · exact List.not_mem_cons_of_ne_of_not_mem (Nat.ne_of_lt opened) closed
    · rw [symbolsOf_openScope, empty]
  | closes => exact ⟨opened, fun member => closed (List.mem_of_mem_tail member), empty⟩
  | empties =>
    refine ⟨?_, fun member => closed (List.mem_of_mem_tail member), ?_⟩
    · rw [length_discard]
      exact opened
    · unfold discard
      rw [symbolsOf_modifySymbols]
      split
      · rfl
      · exact empty
  | @enters other symbol active =>
    refine ⟨by simpa using opened, closed, ?_⟩
    -- Symbols are entered into scopes in force only.
    have elsewhere : ¬ (other = scope ∧ scope < table.scopes.length) :=
      fun here => closed (here.1 ▸ active)
    unfold insert
    rw [symbolsOf_modifySymbols, if_neg elsewhere, empty]

end SymbolTable

namespace Checker

variable {checker : Checker} {scope : ScopeId} {requests : List Request}

/-- What is gone does not come back, whatever is asked for. -/
theorem gone_after (tidy : checker.symbols.Tidy) (inside : unitScope ∉ checker.closing requests)
    (gone : checker.symbols.Gone scope) : (checker.after requests).symbols.Gone scope := by
  induction requests generalizing checker with
  | nil => exact gone
  | cons request rest ih =>
    obtain ⟨here, later⟩ := not_mem_along_cons inside
    have step := step_perform tidy here
    exact ih (step.tidy tidy here) later (gone.step step)

/-- What requests have emptied is gone after them. -/
theorem gone_of_emptying (tidy : checker.symbols.Tidy) (inside : unitScope ∉ checker.closing requests)
    (emptied : scope ∈ checker.emptying requests) : (checker.after requests).symbols.Gone scope := by
  induction requests generalizing checker with
  | nil => cases emptied
  | cons request rest ih =>
    obtain ⟨here, later⟩ := not_mem_along_cons inside
    have step := step_perform tidy here
    have after := step.tidy tidy here
    -- What the first request empties must stay gone through the others.
    rcases List.mem_append.mp emptied with now | afterwards
    · rw [Option.mem_toList.mp now] at step
      have stays := gone_after after later (step.gone tidy)
      exact stays
    · exact ih after later afterwards

end Checker

/-- Requests that open and close scopes in pairs. -/
inductive Bracketed : List Request → Prop where
  /-- There is nothing to close. -/
  | nil : Bracketed []
  /-- A symbol is asked for. -/
  | ask {request : Request} {rest : List Request} (asks : request.name?.isSome)
    (onward : Bracketed rest) : Bracketed (request :: rest)
  /-- A scope is opened and closed. -/
  | scope {inner rest : List Request} {closing : Request} (inside : Bracketed inner)
    (closes : closing = .closeScope ∨ closing = .closeParameters) (onward : Bracketed rest) :
    Bracketed (.openScope :: (inner ++ closing :: rest))

namespace Bracketed

variable {requests others : List Request}

theorem append (bracketed : Bracketed requests) (onward : Bracketed others) :
    Bracketed (requests ++ others) := by
  induction bracketed with
  | nil => exact onward
  | ask asks _ ih => exact .ask asks ih
  | scope inside closes _ _ ih =>
    rw [List.cons_append, List.append_assoc, List.cons_append]
    exact .scope inside closes ih

theorem flatMap {α : Type} {asked : α → List Request} {things : List α}
    (each : ∀ thing, Bracketed (asked thing)) : Bracketed (things.flatMap asked) := by
  induction things with
  | nil => exact .nil
  | cons first rest ih => exact (each first).append ih

theorem of_asks (asks : ∀ request ∈ requests, request.name?.isSome) : Bracketed requests := by
  induction requests with
  | nil => exact .nil
  | cons first rest ih =>
    exact .ask (asks first List.mem_cons_self) (ih fun request member =>
      asks request (List.mem_cons_of_mem _ member))

/-- A scope around requests. -/
theorem around (inside : Bracketed requests) : Bracketed (.openScope :: (requests ++ [.closeScope])) :=
  .scope inside (.inl rfl) .nil

end Bracketed

namespace Checker

variable {checker : Checker}

/-- Requests leave the scopes in force as they are, and close each scope that they open once. -/
structure Closes (checker : Checker) (requests : List Request) : Prop where
  /-- The table is tidy. -/
  tidy : (checker.after requests).symbols.Tidy
  /-- The same scopes are in force. -/
  active : (checker.after requests).symbols.active = checker.symbols.active
  /-- The scopes that are closed are the ones that are opened. -/
  closing : ∃ count, (checker.after requests).symbols.scopes.length =
      checker.symbols.scopes.length + count ∧
    (checker.closing requests).Perm (List.range' checker.symbols.scopes.length count)

/-- Asking for a symbol opens and closes nothing. -/
theorem length_perform (checker : Checker) {request : Request} (asks : request.name?.isSome) :
    (request.perform checker).2.symbols.active = checker.symbols.active ∧
      (request.perform checker).2.symbols.scopes.length = checker.symbols.scopes.length := by
  -- Both ways of declaring end in `enter`, which adds to a scope that is there already.
  have enters (other : Checker) (scope : ScopeId) (name : String) (type : Ty) :
      (other.enter scope name type).2.symbols.active = other.symbols.active ∧
        (other.enter scope name type).2.symbols.scopes.length = other.symbols.scopes.length :=
    ⟨rfl, SymbolTable.length_insert ..⟩
  have declares (other : Checker) (name : String) (type : Ty) :
      (other.declareFunction name type).2.symbols.active = other.symbols.active ∧
        (other.declareFunction name type).2.symbols.scopes.length = other.symbols.scopes.length := by
    unfold declareFunction
    split
    · exact enters ..
    · split <;> exact ⟨rfl, rfl⟩
  cases request with
  | moveTo | openScope | closeScope | closeParameters => cases asks
  | declareVariable name type =>
    unfold Request.perform declareVariable
    dsimp only [Prod.map]
    split
    · exact enters ..
    · split
      · exact ⟨rfl, rfl⟩
      · split <;> exact ⟨rfl, rfl⟩
  | declareFunction name type => exact declares checker name type
  | defineFunction name type =>
    unfold Request.perform defineFunction declareDefined
    dsimp only [Prod.map]
    split
    · split
      · exact ⟨rfl, rfl⟩
      · exact declares ..
    · exact declares ..
  | resolve name =>
    -- A name that is not found is entered as undeclared, so that it is reported once.
    unfold Request.perform resolve
    dsimp only [Prod.map]
    split
    · exact ⟨rfl, rfl⟩
    · exact enters ..

/-- Closing a scope closes the current one, whether its symbols are dropped or not. -/
theorem closes_current (checker : Checker) {closing : Request}
    (closes : closing = .closeScope ∨ closing = .closeParameters) :
    closing.closes? checker = some checker.current ∧
      (closing.perform checker).2.symbols.active = checker.symbols.active.tail ∧
        (closing.perform checker).2.symbols.scopes.length = checker.symbols.scopes.length := by
  -- Dropping the symbols of a scope leaves the scope itself in the table.
  rcases closes with rfl | rfl
  · exact ⟨rfl, rfl, rfl⟩
  · refine ⟨rfl, ?_⟩
    unfold Request.perform closeParameters
    dsimp only
    split
    · exact ⟨rfl, rfl⟩
    · exact ⟨rfl, SymbolTable.length_discard ..⟩

/-- A request for a symbol may be made first. -/
theorem Closes.ask (tidy : checker.symbols.Tidy) {request : Request} {requests : List Request}
    (asks : request.name?.isSome) (onward : (request.perform checker).2.symbols.Tidy →
      (request.perform checker).2.Closes requests) : checker.Closes (request :: requests) := by
  obtain ⟨active, length⟩ := checker.length_perform asks
  have still : request.closes? checker = none := by
    cases request <;> first | rfl | cases asks
  -- A table that was tidy is tidy behind a request that closes nothing.
  have after := (step_perform tidy (by rw [still]; simp)).tidy tidy (by rw [still]; simp)
  obtain ⟨left, force, count, opened, closed⟩ := onward after
  refine ⟨left, force.trans active, count, opened.trans (by rw [length]), ?_⟩
  rw [length] at closed
  unfold Checker.closing along
  rw [still]
  exact closed

/-- A scope may be opened and closed around requests, and others made behind it. -/
theorem Closes.around (tidy : checker.symbols.Tidy) {inner rest : List Request}
    {closing : Request}
    (closes : closing = .closeScope ∨ closing = .closeParameters)
    (within : checker.openScope.2.Closes inner)
    (onward : (closing.perform (checker.openScope.2.after inner)).2.symbols.Tidy →
      (closing.perform (checker.openScope.2.after inner)).2.Closes rest) :
    checker.Closes (.openScope :: (inner ++ closing :: rest)) := by
  obtain ⟨between, force, count, opened, closed⟩ := within
  have grown : checker.openScope.2.symbols.scopes.length = checker.symbols.scopes.length + 1 :=
    List.length_append
  -- What is done inside ends where the scope that was opened is the current one again.
  have current : (checker.openScope.2.after inner).current = checker.symbols.scopes.length := by
    unfold Checker.current SymbolTable.current?
    rw [force]
    rfl
  obtain ⟨number, left, same⟩ := (checker.openScope.2.after inner).closes_current closes
  rw [current] at number
  have inside : closing.closes? (checker.openScope.2.after inner) ≠ some unitScope := by
    rw [number]
    have outer := tidy.opened (unitScope_active tidy.proper)
    exact fun same => Nat.ne_of_gt outer (Option.some.inj same)
  have after := (step_perform between inside).tidy between inside
  obtain ⟨last, further, more, reached, others⟩ := onward after
  have whole := after_append checker.openScope.2 inner (closing :: rest)
  change checker.after (.openScope :: (inner ++ closing :: rest)) =
    (closing.perform (checker.openScope.2.after inner)).2.after rest at whole
  have listed : checker.closing (.openScope :: (inner ++ closing :: rest)) =
      checker.openScope.2.closing inner ++ checker.symbols.scopes.length ::
        (closing.perform (checker.openScope.2.after inner)).2.closing rest := by
    change checker.openScope.2.along Request.closes? (inner ++ closing :: rest) = _
    rw [along_append, along, number]
    rfl
  rw [same, opened, grown] at reached others
  rw [grown] at closed
  refine ⟨whole ▸ last, ?_, count + more + 1, ?_, ?_⟩
  · rw [whole, further, left, force]
    rfl
  · rw [whole, reached]
    omega
  · rw [listed, List.range'_succ, ← List.range'_append_1]
    exact List.perm_middle.trans ((closed.append others).cons _)

end Checker

/-- Whatever is opened by requests that come in pairs is closed by them, once. -/
theorem Bracketed.closes {requests : List Request} (bracketed : Bracketed requests)
    {checker : Checker} (tidy : checker.symbols.Tidy) : checker.Closes requests := by
  -- The induction is on the pairs: what is inside of one is bracketed, and so is what follows.
  induction bracketed generalizing checker with
  | nil => exact ⟨tidy, rfl, 0, rfl, .refl _⟩
  | ask asks _ ih => exact .ask tidy asks ih
  | scope _ closes _ within onward =>
    have entered : checker.openScope.2.symbols.Tidy :=
      SymbolTable.Step.opens.tidy tidy (Option.some_ne_none unitScope).symm
    exact .around tidy closes (within entered) onward

/-! The requests of a derivation come in pairs. -/

theorem Declaration.bracketed_requests (declaration : Declaration) :
    Bracketed declaration.requests := by
  refine .of_asks fun request member => ?_
  obtain ⟨declarator, -, rfl⟩ := List.mem_map.mp member
  rfl

theorem Parameters.bracketed_requests (parameters : Parameters) : Bracketed parameters.requests := by
  refine .of_asks fun request member => ?_
  obtain ⟨parameter, -, rfl⟩ := List.mem_map.mp member
  rfl

mutual

theorem Phrase.bracketed_requests : (phrase : Phrase) → Bracketed phrase.requests
  | .literal _ | .sizeofType _ => .nil
  | .name _ => .ask rfl .nil
  | .call _ arguments => .ask rfl (Phrase.bracketed_requestsAll arguments)
  | .unary _ operand | .step _ operand => operand.bracketed_requests
  | .subscript left right | .binary _ left right =>
    left.bracketed_requests.append right.bracketed_requests

theorem Phrase.bracketed_requestsAll : (phrases : List Phrase) → Bracketed (Phrase.requestsAll phrases)
  | [] => .nil
  | first :: rest => first.bracketed_requests.append (Phrase.bracketed_requestsAll rest)

end

mutual

theorem Clause.bracketed_requests : (clause : Clause) → Bracketed clause.requests
  | .evaluate value | .returnValue value => value.bracketed_requests
  | .assign left right => left.bracketed_requests.append right.bracketed_requests
  | .breakLoop => .nil
  | .block _ body => .around
      ((Bracketed.flatMap Declaration.bracketed_requests).append (Clause.bracketed_requestsAll body))
  | .whileLoop test body | .ifThen test body => test.bracketed_requests.append body.bracketed_requests
  | .forLoop init test increment body =>
    init.bracketed_requests.append (test.bracketed_requests.append
      (increment.bracketed_requests.append body.bracketed_requests))
  | .ifElse test body otherwise =>
    test.bracketed_requests.append (body.bracketed_requests.append otherwise.bracketed_requests)

theorem Clause.bracketed_requestsAll : (clauses : List Clause) → Bracketed (Clause.requestsAll clauses)
  | [] => .nil
  | first :: rest => first.bracketed_requests.append (Clause.bracketed_requestsAll rest)

end

/-- A unit opens and closes scopes in pairs. -/
theorem Global.bracketed_requests (global : Global) : Bracketed global.requests := by
  cases global with
  | declaration specifier declarators =>
    refine .flatMap fun declarator => ?_
    cases declarator with
    | object declarator => exact .ask rfl .nil
    -- The scope of the parameters is closed before the name is declared.
    | prototype indirection name parameters =>
      exact .scope parameters.bracketed_requests (.inr rfl) (.ask rfl .nil)
  | definition function =>
    refine .around (function.parameters.bracketed_requests.append (.ask rfl ?_))
    exact (Bracketed.flatMap Declaration.bracketed_requests).append
      (Clause.bracketed_requestsAll function.body)

end SmallC
