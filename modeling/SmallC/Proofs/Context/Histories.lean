import SmallC.Proofs.Definitions.Accounts
import SmallC.Proofs.Program.Bare
import SmallC.Proofs.Tables.Requests

/-! Histories: what a unit asks of the checker is written in its derivation, scopes opened and closed in
pairs. -/

namespace SmallC

/-! What a derivation asks for. -/

mutual

/-- The requests that a phrase makes, in order. -/
def Phrase.requests : Phrase → List Request
  | .literal _ | .sizeofType _ => []
  | .name spelling => [.resolve spelling]
  | .call callee arguments => .resolve callee :: Phrase.requestsAll arguments
  | .unary _ operand | .step _ operand => operand.requests
  | .subscript left right | .binary _ left right => left.requests ++ right.requests

/-- The requests that phrases make, in order. -/
def Phrase.requestsAll : List Phrase → List Request
  | [] => []
  | first :: rest => first.requests ++ Phrase.requestsAll rest

end

/-- The requests that a declaration makes, one for each variable. -/
def Declaration.requests (declaration : Declaration) : List Request :=
  declaration.declarators.map fun declarator =>
    .declareVariable declarator.name (declarator.type declaration.specifier)

/-- The requests that parameters make, one for each. -/
def Parameters.requests (parameters : Parameters) : List Request :=
  parameters.listed.map fun parameter =>
    .declareVariable parameter.name (.scalar parameter.specifier parameter.indirection)

mutual

/-- The requests that a statement makes, in order. -/
def Clause.requests : Clause → List Request
  | .evaluate value | .returnValue value => value.requests
  | .assign left right => left.requests ++ right.requests
  | .breakLoop => []
  | .block declared body =>
    .openScope :: (declared.flatMap Declaration.requests ++ Clause.requestsAll body ++ [.closeScope])
  | .whileLoop test body | .ifThen test body => test.requests ++ body.requests
  | .forLoop init test increment body =>
    init.requests ++ (test.requests ++ (increment.requests ++ body.requests))
  | .ifElse test body otherwise => test.requests ++ (body.requests ++ otherwise.requests)

/-- The requests that statements make, in order. -/
def Clause.requestsAll : List Clause → List Request
  | [] => []
  | first :: rest => first.requests ++ Clause.requestsAll rest

end

/-- The requests that a variable or a function without a body makes. -/
def GlobalDeclarator.requests (specifier : Specifier) : GlobalDeclarator → List Request
  | .object declarator => [.declareVariable declarator.name (declarator.type specifier)]
  -- The scope of the parameters is emptied where no body follows.
  | .prototype indirection name parameters =>
    .openScope :: (parameters.requests ++
      [.closeParameters, .declareFunction name (parameters.type specifier indirection)])

/-- The requests that a function with a body makes. -/
def Definition.requests (definition : Definition) : List Request :=
  .openScope :: (definition.parameters.requests ++
    (.defineFunction definition.name definition.declaration.2 ::
      (definition.declared.flatMap Declaration.requests ++ Clause.requestsAll definition.body)) ++
    [.closeScope])

/-- The requests of what stands at the top of a unit. -/
def Global.requests : Global → List Request
  | .declaration specifier declarators => declarators.flatMap (·.requests specifier)
  | .definition function => function.requests

namespace Checker

variable {checker : Checker}

/-- What requests depend on: the symbols without their places, and which functions have bodies. -/
def core (checker : Checker) : Checker :=
  { symbols := checker.symbols.bare, defined := checker.defined }

theorem bare_bare (table : SymbolTable) : table.bare.bare = table.bare := by
  have again : Scope.bare ∘ Scope.bare = Scope.bare := by
    funext scope
    unfold Scope.bare
    simp [Function.comp_def, Symbol.bare]
  unfold SymbolTable.bare
  dsimp only
  rw [List.map_map, again]

@[simp] theorem core_bare (checker : Checker) : checker.bare.core = checker.core := by
  unfold core
  rw [symbols_bare, bare_bare]
  rfl

/-- No request takes notice of places. -/
theorem bare_perform (request : Request) (checker : Checker) :
    (request.perform checker.bare).2 = (request.perform checker).2.bare := by
  cases request with
  | moveTo => rfl
  | openScope => exact congrArg Prod.snd (frameless_openScope checker)
  | closeScope => exact congrArg Prod.snd (frameless_closeScope checker)
  | closeParameters => exact bare_closeParameters checker
  | declareVariable name type => exact congrArg Prod.snd (frameless_declareVariable name type checker)
  | declareFunction name type => exact congrArg Prod.snd (frameless_declareFunction name type checker)
  | defineFunction name type => exact congrArg Prod.snd (frameless_defineFunction name type checker)
  | resolve name => exact congrArg Prod.snd (frameless_resolve name checker)

/-- A declaration enters a name that is missing and does nothing else, whatever it reports. -/
theorem core_declareVariable (name : String) (type : Ty) (checker : Checker) :
    (checker.declareVariable name type).2.core =
      match checker.symbols.find? checker.current name with
      | none => (checker.enter checker.current name type).2.core
      | some _ => checker.core := by
  unfold declareVariable
  dsimp only
  -- A name that is there already is at most reported.
  cases checker.symbols.find? checker.current name with
  | none => rfl
  | some existing =>
    dsimp only
    split
    · rfl
    · split <;> rfl

theorem core_declareFunction (name : String) (type : Ty) (checker : Checker) :
    (checker.declareFunction name type).2.core =
      match checker.symbols.find? unitScope name with
      | none => (checker.enter unitScope name type).2.core
      | some _ => checker.core := by
  unfold declareFunction
  cases checker.symbols.find? unitScope name with
  | none => rfl
  | some existing =>
    dsimp only
    split <;> rfl

theorem core_defineFunction (name : String) (type : Ty) (checker : Checker) :
    (checker.defineFunction name type).2.core =
      if checker.defined.contains name ∧ (checker.symbols.find? unitScope name).isSome then
        checker.core
      else (declareFunction name type { checker with defined := name :: checker.defined }).2.core := by
  have declares : (declareDefined name type (checker.report (.redefinition name))).2.core =
      (declareFunction name type { checker with defined := name :: checker.defined }).2.core := by
    unfold declareDefined
    rw [core_declareFunction, core_declareFunction]
    rfl
  -- A second definition is reported; it changes nothing else only if the name is in the table.
  unfold defineFunction
  split
  · next known =>
    have same : (checker.report (.redefinition name)).symbols.find? unitScope name =
        checker.symbols.find? unitScope name := rfl
    dsimp only
    rw [same]
    cases checker.symbols.find? unitScope name with
    | none => simpa using declares
    | some existing => rw [if_pos ⟨known, rfl⟩]; rfl
  · next fresh =>
    rw [if_neg fun both => fresh both.1]
    rfl

theorem core_resolve (name : String) (checker : Checker) :
    (checker.resolve name).2.core =
      match checker.symbols.lookup? name with
      | none => (checker.enter checker.current name .error).2.core
      | some _ => checker.core := by
  unfold resolve
  cases checker.symbols.lookup? name <;> rfl

/-- What a request does to the table depends on nothing but the table and the functions with bodies. -/
theorem core_perform (request : Request) (checker : Checker) :
    (request.perform checker).2.core = (request.perform checker.core).2.core := by
  -- Reports are never read, and neither is where they are put.
  have blind (other : Checker) : (request.perform other).2.core =
      (request.perform { symbols := other.symbols, defined := other.defined }).2.core := by
    cases request with
    | moveTo | openScope | closeScope => rfl
    | closeParameters =>
      by_cases outermost : other.symbols.closeScope.1.getD unitScope = unitScope <;>
        simp [Request.perform, closeParameters, closeScope, core, outermost]
    | declareVariable name type =>
      simp only [Request.perform, Prod.map_snd, id, core_declareVariable]
      rfl
    | declareFunction name type =>
      simp only [Request.perform, Prod.map_snd, id, core_declareFunction]
      rfl
    | defineFunction name type =>
      simp only [Request.perform, Prod.map_snd, id, core_defineFunction, core_declareFunction]
      rfl
    | resolve name =>
      simp only [Request.perform, Prod.map_snd, id, core_resolve]
      rfl
  rw [← core_bare, ← bare_perform]
  exact blind checker.bare

/-- What requests do depends on nothing but the table and the functions with bodies. -/
theorem core_after (requests : List Request) (checker : Checker) :
    (checker.after requests).core = (checker.core.after requests).core := by
  induction requests generalizing checker with
  | nil => exact (congrArg (fun symbols => ({ symbols, defined := checker.defined } : Checker))
      (bare_bare checker.symbols)).symm
  | cons request rest ih =>
    change ((request.perform checker).2.after rest).core =
      ((request.perform checker.core).2.after rest).core
    rw [ih, core_perform, ← ih]

/-- Checkers that agree on what requests depend on still do after the same ones. -/
theorem core_after_congr {other : Checker} (same : checker.core = other.core)
    (requests : List Request) : (checker.after requests).core = (other.after requests).core := by
  rw [core_after, same, ← core_after]

end Checker

/-! What checking asks for. -/

namespace Checking

variable {α β : Type} {step : Checking α} {requests others : List Request}

/-- A step does to the table what requests do, wherever it is taken. -/
def Asks (step : Checking α) (requests : List Request) : Prop :=
  ∀ checker : Checker, (step checker).2.core = (checker.after requests).core

theorem asks_pure (value : α) : Asks (pure value) [] :=
  fun _ => rfl

theorem Asks.bind (first : Asks step requests) {next : α → Checking β}
    (rest : ∀ value, Asks (next value) others) : Asks (step >>= next) (requests ++ others) := by
  intro checker
  rw [Checker.after_append, ← Checker.core_after_congr (first checker)]
  exact rest (step checker).1 (step checker).2

/-- What a step asks for may depend on its value, where that is known. -/
theorem Asks.bind_of (first : Asks step requests) {next : α → Checking β} (good : α → Prop)
    (holds : ∀ checker : Checker, good (step checker).1)
    (rest : ∀ value, good value → Asks (next value) others) :
    Asks (step >>= next) (requests ++ others) := by
  intro checker
  rw [Checker.after_append, ← Checker.core_after_congr (first checker)]
  exact rest (step checker).1 (holds checker) (step checker).2

/-- A step that asks for nothing may come last. -/
theorem Asks.last (first : Asks step requests) {next : α → Checking β}
    (rest : ∀ value, Asks (next value) []) : Asks (step >>= next) requests := by
  have both := first.bind rest
  rwa [List.append_nil] at both

theorem Asks.discard (first : Asks step requests) : Asks (Functor.discard step) requests :=
  first.last fun _ => asks_pure _

theorem asks_get : Asks (get : Checking Checker) [] :=
  fun _ => rfl

theorem asks_record (verdict : Verdict α) : Asks (Checker.record verdict) [] := by
  intro checker
  unfold Checker.record
  cases verdict.problem? <;> rfl

theorem asks_perform (request : Request) {step : Checking α}
    (same : ∀ checker : Checker, (step checker).2 = (request.perform checker).2) :
    Asks step [request] :=
  fun checker => congrArg Checker.core (same checker)

theorem asks_resolve (name : String) : Asks (Checker.resolve name) [.resolve name] :=
  asks_perform (.resolve name) fun _ => rfl

theorem asks_declareVariable (name : String) (type : Ty) :
    Asks (Checker.declareVariable name type) [.declareVariable name type] :=
  asks_perform (.declareVariable name type) fun _ => rfl

theorem asks_declareFunction (name : String) (type : Ty) :
    Asks (Checker.declareFunction name type) [.declareFunction name type] :=
  asks_perform (.declareFunction name type) fun _ => rfl

theorem asks_defineFunction (name : String) (type : Ty) :
    Asks (Checker.defineFunction name type) [.defineFunction name type] :=
  asks_perform (.defineFunction name type) fun _ => rfl

theorem asks_openScope : Asks Checker.openScope [.openScope] :=
  asks_perform .openScope fun _ => rfl

theorem asks_closeScope : Asks Checker.closeScope [.closeScope] :=
  asks_perform .closeScope fun _ => rfl

theorem asks_closeParameters : Asks (modify Checker.closeParameters) [.closeParameters] :=
  asks_perform .closeParameters fun _ => rfl

theorem asks_mapM {item : β → Checking α} {asked : β → List Request}
    (each : ∀ thing, Asks (item thing) (asked thing)) (things : List β) :
    Asks (things.mapM' item) (things.flatMap asked) := by
  induction things with
  | nil => exact asks_pure _
  | cons first rest ih => exact (each first).bind fun _ => ih.last fun _ => asks_pure _

end Checking

open Checking

theorem Declarator.asks_elaborate (specifier : Specifier) (declarator : Declarator) :
    Asks (declarator.elaborate specifier)
      [.declareVariable declarator.name (declarator.type specifier)] :=
  (asks_declareVariable declarator.name _).discard

theorem Declaration.asks_elaborate (declaration : Declaration) :
    Asks declaration.elaborate declaration.requests := by
  have all := asks_mapM (Declarator.asks_elaborate declaration.specifier) declaration.declarators
  rw [← List.map_eq_flatMap] at all
  exact all.discard

namespace Phrase

mutual

/-- A phrase makes the requests that are written in it. -/
theorem asks_elaborate : (phrase : Phrase) → Asks phrase.elaborate phrase.requests
  | .literal value => by
    rw [elaborate, requests]
    exact asks_pure _
  | .name spelling => by
    rw [elaborate, requests]
    exact (asks_resolve spelling).last fun _ => asks_get.bind fun _ => asks_pure _
  | .call callee arguments => by
    rw [elaborate, requests]
    refine (asks_resolve callee).bind fun symbol => (asks_elaborateAll arguments).last ?_
    -- The type of the callee is looked up in the table that the arguments have left.
    intro values checker
    exact asks_record (checkCall symbol (checker.symbols.typeOf symbol) values) checker
  | .unary sign operand => by
    rw [elaborate, requests]
    exact operand.asks_elaborate.last fun value => asks_record _
  | .sizeofType type => by
    rw [elaborate, requests]
    exact asks_pure _
  | .subscript array index => by
    rw [elaborate, requests]
    exact array.asks_elaborate.bind fun left => index.asks_elaborate.last fun right => asks_record _
  | .step op operand => by
    rw [elaborate, requests]
    exact operand.asks_elaborate.last fun value => asks_record _
  | .binary sign left right => by
    rw [elaborate, requests]
    exact left.asks_elaborate.bind fun first => right.asks_elaborate.last fun second => asks_record _

theorem asks_elaborateAll : (phrases : List Phrase) → Asks (elaborateAll phrases) (requestsAll phrases)
  | [] => by
    rw [elaborateAll, requestsAll]
    exact asks_pure _
  | first :: rest => by
    rw [elaborateAll, requestsAll]
    exact first.asks_elaborate.bind fun _ => (asks_elaborateAll rest).last fun _ => asks_pure _

end

end Phrase

namespace Clause

theorem asks_elaborateTest (test : Phrase) : Asks (elaborateTest test) test.requests :=
  test.asks_elaborate.last fun _ => asks_record _

theorem asks_elaborateTurn {α : Type} {body : Checking α} {requests : List Request}
    (turn : Asks body requests) : Asks (elaborateTurn body) requests := by
  have enters : Asks (modify Checker.enterLoop) [] := fun _ => rfl
  have leaves : Asks (modify Checker.leaveLoop) [] := fun _ => rfl
  exact enters.bind fun _ => turn.last fun _ => leaves.last fun _ => asks_pure _

mutual

/-- A statement makes the requests that are written in it. -/
theorem asks_elaborate : (clause : Clause) → Asks clause.elaborate clause.requests
  | .evaluate value => by
    rw [elaborate, requests]
    exact value.asks_elaborate.last fun _ => asks_pure _
  | .assign left right => by
    rw [elaborate, requests]
    exact left.asks_elaborate.bind fun _ => right.asks_elaborate.last fun _ => asks_record _
  | .breakLoop => by
    rw [elaborate, requests]
    exact asks_get.bind fun _ => asks_record _
  | .returnValue value => by
    rw [elaborate, requests]
    exact value.asks_elaborate.last fun _ => asks_get.bind fun _ => asks_record _
  | .block declared body => by
    rw [elaborate, requests, List.append_assoc]
    refine asks_openScope.bind fun scope => ?_
    refine (asks_mapM Declaration.asks_elaborate declared).discard.bind fun _ => ?_
    refine (asks_elaborateAll body).bind fun statements => ?_
    exact asks_closeScope.discard.last fun _ => asks_pure _
  | .whileLoop test body => by
    rw [elaborate, requests]
    refine (asks_elaborateTest test).bind fun _ => ?_
    exact (asks_elaborateTurn body.asks_elaborate).last fun _ => asks_pure _
  | .forLoop init test increment body => by
    rw [elaborate, requests]
    refine init.asks_elaborate.bind fun _ => (asks_elaborateTest test).bind fun _ => ?_
    refine increment.asks_elaborate.bind fun _ => ?_
    exact (asks_elaborateTurn body.asks_elaborate).last fun _ => asks_pure _
  | .ifThen test body => by
    rw [elaborate, requests]
    exact (asks_elaborateTest test).bind fun _ => body.asks_elaborate.last fun _ => asks_pure _
  | .ifElse test body otherwise => by
    rw [elaborate, requests]
    refine (asks_elaborateTest test).bind fun _ => body.asks_elaborate.bind fun _ => ?_
    exact otherwise.asks_elaborate.last fun _ => asks_pure _

theorem asks_elaborateAll : (clauses : List Clause) → Asks (elaborateAll clauses) (requestsAll clauses)
  | [] => by
    rw [elaborateAll, requestsAll]
    exact asks_pure _
  | first :: rest => by
    rw [elaborateAll, requestsAll]
    exact first.asks_elaborate.bind fun _ => (asks_elaborateAll rest).last fun _ => asks_pure _

end

end Clause

theorem Parameters.asks_elaborate (specifier : Specifier) (indirection : Nat)
    (parameters : Parameters) :
    Asks (parameters.elaborate specifier indirection) (.openScope :: parameters.requests) := by
  have each (parameter : Parameter) : Asks parameter.elaborate
      [.declareVariable parameter.name (.scalar parameter.specifier parameter.indirection)] :=
    (asks_declareVariable parameter.name _).discard.last fun _ => asks_pure _
  have all := asks_mapM each parameters.listed
  rw [← List.map_eq_flatMap] at all
  exact asks_openScope.bind fun scope => all.last fun _ => asks_pure _

theorem GlobalDeclarator.asks_elaborate (specifier : Specifier) (declarator : GlobalDeclarator) :
    Asks (declarator.elaborate specifier) (declarator.requests specifier) := by
  cases declarator with
  | object declarator => exact declarator.asks_elaborate specifier
  | prototype indirection name parameters =>
    have signed := parameters.asks_elaborate specifier indirection
    refine signed.bind_of (fun signature => signature.1 = parameters.type specifier indirection)
      (elaborate_parameters specifier indirection parameters) fun signature typed => ?_
    -- The name is declared with the type that the signature gives.
    rw [← typed]
    exact asks_closeParameters.bind fun _ => (asks_declareFunction name signature.1).discard

theorem Definition.asks_elaborate (definition : Definition) :
    Asks definition.elaborate definition.requests := by
  unfold Definition.requests Definition.declaration
  rw [List.append_assoc, List.cons_append, List.append_assoc]
  have signed := definition.parameters.asks_elaborate definition.specifier definition.indirection
  refine signed.bind_of (fun signature =>
      signature.1 = definition.parameters.type definition.specifier definition.indirection)
    (elaborate_parameters _ _ definition.parameters) fun signature typed => ?_
  have begins : Asks (modify (·.beginFunction
      (.scalar definition.specifier definition.indirection))) [] := fun _ => rfl
  -- From here on the requests are compared with the type that has been read.
  rw [← typed]
  refine asks_get.bind fun checker => begins.bind fun _ => ?_
  refine (asks_defineFunction definition.name signature.1).bind fun symbol => ?_
  refine (asks_mapM Declaration.asks_elaborate definition.declared).discard.bind fun _ => ?_
  refine (Clause.asks_elaborateAll definition.body).bind fun body => ?_
  exact asks_closeScope.last fun scope => asks_pure _

theorem Global.asks_elaborate (global : Global) : Asks global.elaborate global.requests := by
  cases global with
  | declaration specifier declarators =>
    exact (asks_mapM (GlobalDeclarator.asks_elaborate specifier) declarators).discard.last
      fun _ => asks_pure _
  | definition function => exact function.asks_elaborate.last fun _ => asks_pure _

/-- A unit makes the requests that are written in it, whatever becomes of its functions as long as only
places change. -/
theorem Global.core_elaborateAll {σ : Type} {consume : Consumer σ}
    (places : ∀ function symbols output, (consume function symbols output).1.bare = symbols.bare)
    (globals : List Global) (checker : Checker) (output : σ) :
    (Global.elaborateAll consume globals checker output).1.core =
      (checker.after (globals.flatMap Global.requests)).core := by
  induction globals generalizing checker output with
  | nil => rfl
  | cons first rest ih =>
    have asked := first.asks_elaborate checker
    rw [List.flatMap_cons, Checker.after_append, ← Checker.core_after_congr asked]
    unfold Global.elaborateAll
    cases done : first.elaborate checker with
    | mk result reached =>
      cases result with
      | none => exact ih reached output
      | some function =>
        -- What becomes of a function moves only places, which the core leaves out.
        let consumed := consume function reached.symbols output
        refine (ih { reached with symbols := consumed.1 } consumed.2).trans ?_
        refine Checker.core_after_congr ?_ _
        exact congrArg (fun symbols => ({ symbols, defined := reached.defined } : Checker))
          (places function reached.symbols output)

end SmallC
