import SmallC.Proofs.Definitions.Bodies
import SmallC.Proofs.Derivations.Stages

/-! Accounts: what a checker knows of a unit is what the unit has declared and defined so far, in
whatever order declarations, prototypes and definitions come. -/

namespace SmallC

/-! What stands at the top of a unit. -/

/-- The type of a function with the parameters. -/
def Parameters.type (specifier : Specifier) (indirection : Nat) (parameters : Parameters) : Ty :=
  .function specifier indirection
    (parameters.listed.map fun parameter => .scalar parameter.specifier parameter.indirection)
    parameters.variadic

/-- The name and the type that a variable or a function without a body is declared with. -/
def GlobalDeclarator.declaration (specifier : Specifier) : GlobalDeclarator → String × Ty
  | .object declarator => (declarator.name, declarator.type specifier)
  | .prototype indirection name parameters => (name, parameters.type specifier indirection)

/-- The name and the type that a function with a body is declared with. -/
def Definition.declaration (definition : Definition) : String × Ty :=
  (definition.name, definition.parameters.type definition.specifier definition.indirection)

/-- The names and types that are declared by what stands at the top of a unit. -/
def Global.declarations : Global → List (String × Ty)
  | .declaration specifier declarators => declarators.map (·.declaration specifier)
  | .definition function => [function.declaration]

/-- The function with a body, if it is one that stands at the top of a unit. -/
def Global.definition? : Global → Option Definition
  | .declaration .. => none
  | .definition function => some function

/-- The names of the functions of a unit that have bodies, one for each body in order. -/
def definedNames (globals : List Global) : List String :=
  (globals.filterMap Global.definition?).map Definition.name

/-- The names and types that a unit declares, in order. -/
def declaredIn (globals : List Global) : List (String × Ty) :=
  globals.flatMap Global.declarations

namespace Checker

/-- What the checker knows of the unit is what has been declared and defined so far. -/
structure Accounts (checker : Checker) (declared : List (String × Ty)) (defined : List String) :
    Prop where
  /-- The scope of the unit has been opened. -/
  rooted : unitScope < checker.symbols.scopes.length
  /-- Every name is in the unit once. -/
  distinct : (checker.unit.map Prod.fst).Nodup
  /-- It is there with a type that it has been declared with. -/
  sources : checker.unit ⊆ declared
  /-- Unless something has been reported, there is no other type for it. -/
  agreed : checker.reports = [] → declared ⊆ checker.unit
  /-- The names of functions with bodies are known. -/
  bodies : ∀ name, name ∈ checker.defined ↔ name ∈ defined
  /-- Every body but the first one has been reported. -/
  counted : ∀ name, checker.redefinitions name = defined.count name - 1

variable {old new checker : Checker} {name : String} {type : Ty}
  {declared more : List (String × Ty)} {defined : List String}

/-- What leaves the unit as it is can be left out of account. -/
theorem Accounts.leaves (accounts : old.Accounts declared defined) (leaves : old.Leaves new) :
    new.Accounts declared defined where
  rooted := Nat.lt_of_lt_of_le accounts.rooted leaves.opened
  distinct := leaves.unit ▸ accounts.distinct
  sources := leaves.unit ▸ accounts.sources
  agreed silent := leaves.unit ▸ accounts.agreed (leaves.quiet silent)
  bodies name := leaves.defined ▸ accounts.bodies name
  counted name := (leaves.redefinitions name).trans (accounts.counted name)

/-- After a report, declarations need not agree. -/
theorem Accounts.reported (accounts : checker.Accounts declared defined)
    (reported : checker.reports ≠ []) (more : List (String × Ty)) :
    checker.Accounts (declared ++ more) defined where
  rooted := accounts.rooted
  distinct := accounts.distinct
  sources := fun _ listed => List.mem_append_left _ (accounts.sources listed)
  agreed silent := absurd silent reported
  bodies := accounts.bodies
  counted := accounts.counted

/-- What has been declared with the same type before need not be declared again. -/
theorem Accounts.repeated (accounts : checker.Accounts declared defined)
    (known : (name, type) ∈ checker.unit) :
    checker.Accounts (declared ++ [(name, type)]) defined where
  rooted := accounts.rooted
  distinct := accounts.distinct
  sources := fun _ listed => List.mem_append_left _ (accounts.sources listed)
  agreed silent := by
    refine List.append_subset.mpr ⟨accounts.agreed silent, fun _ listed => ?_⟩
    rwa [List.mem_singleton.mp listed]
  bodies := accounts.bodies
  counted := accounts.counted

/-- A name is found in the unit where it has been declared. -/
theorem find?_unit : checker.symbols.find? unitScope name = none ↔
    name ∉ checker.unit.map Prod.fst := by
  rw [SymbolTable.find?_eq_none, unit, List.map_map]
  rfl

/-- What is found in the unit is declared there with its type. -/
theorem mem_unit {symbol : SymbolId}
    (found : checker.symbols.find? unitScope name = some symbol) :
    (name, checker.symbols.typeOf symbol) ∈ checker.unit := by
  obtain ⟨type, known⟩ := SymbolTable.declared_of_find found
  have outermost : symbol.scope = unitScope := by
    obtain ⟨slot, -, rfl⟩ := Option.map_eq_some_iff.mp found
    rfl
  rw [SymbolTable.typeOf_eq_declared, known]
  rw [SymbolTable.declared_eq_getElem, outermost] at known
  exact List.mem_of_getElem? known

/-- A new name is entered into the unit with its type. -/
theorem Accounts.enter (accounts : checker.Accounts declared defined)
    (absent : checker.symbols.find? unitScope name = none) :
    (checker.enter unitScope name type).2.Accounts (declared ++ [(name, type)]) defined := by
  have unit : (checker.enter unitScope name type).2.unit = checker.unit ++ [(name, type)] := by
    unfold unit Checker.enter
    dsimp only
    rw [SymbolTable.symbolsOf_insert _ accounts.rooted, List.map_append]
    rfl
  refine ⟨?_, ?_, ?_, fun silent => ?_, accounts.bodies, accounts.counted⟩
  · have rooted := accounts.rooted
    simpa [Checker.enter, SymbolTable.insert, SymbolTable.modifySymbols] using rooted
  · -- The new name differs from all that are there, since it has been looked for among them.
    rw [unit, List.map_append]
    refine List.nodup_append.mpr ⟨accounts.distinct, List.nodup_singleton _, ?_⟩
    intro known listed other same clash
    rw [clash, List.mem_singleton.mp same] at listed
    exact find?_unit.mp absent listed
  · rw [unit]
    exact List.append_subset.mpr ⟨List.subset_append_of_subset_left _ accounts.sources,
      List.subset_append_right _ _⟩
  · rw [unit]
    exact List.append_subset.mpr ⟨List.subset_append_of_subset_left _ (accounts.agreed silent),
      List.subset_append_right _ _⟩

/-- A further declaration in the unit is taken into account, whether its type agrees or not. -/
theorem Accounts.declareFunction (accounts : checker.Accounts declared defined) (name : String)
    (type : Ty) :
    (checker.declareFunction name type).2.Accounts (declared ++ [(name, type)]) defined := by
  unfold Checker.declareFunction
  cases found : checker.symbols.find? unitScope name with
  | none => exact accounts.enter found
  | some existing =>
    dsimp only
    split
    · -- A type that disagrees is reported, and the unit keeps the first one.
      exact (accounts.leaves (leaves_report (by simp))).reported (by simp [report]) _
    · next same =>
      have known := mem_unit found
      rw [not_not.mp same] at known
      exact accounts.repeated known

/-- In the unit a variable is declared as a function is. -/
theorem declareVariable_eq (outermost : checker.current = unitScope) (name : String) (type : Ty) :
    checker.declareVariable name type = checker.declareFunction name type := by
  unfold declareVariable declareFunction
  rw [outermost]
  simp only [ne_eq, not_true_eq_false, if_false]

/-- The first body of a function is noted. -/
theorem Accounts.first (accounts : checker.Accounts declared defined)
    (fresh : name ∉ checker.defined) :
    Accounts { checker with defined := name :: checker.defined } declared (defined ++ [name]) := by
  refine ⟨accounts.rooted, accounts.distinct, accounts.sources, accounts.agreed, ?_, ?_⟩
  · intro other
    rw [List.mem_cons, List.mem_append, accounts.bodies other, List.mem_singleton, or_comm]
  · intro other
    -- The name has not been defined before, so there is nothing to report of it.
    have never := List.count_eq_zero.mpr (mt (accounts.bodies name).mpr fresh)
    refine (accounts.counted other).trans ?_
    rw [List.count_append, List.count_singleton]
    by_cases same : name = other
    · subst same
      simp [never]
    · simp [same]

/-- A further body is reported, and no new name is noted. -/
theorem Accounts.further (accounts : checker.Accounts declared defined)
    (known : name ∈ checker.defined) {names : List String}
    (same : ∀ other, other ∈ names ↔ other ∈ checker.defined) :
    Accounts { checker.report (.redefinition name) with defined := names } declared
      (defined ++ [name]) := by
  have before := (accounts.bodies name).mp known
  refine ⟨accounts.rooted, accounts.distinct, accounts.sources, fun silent => ?_, ?_, ?_⟩
  · simp [report] at silent
  · intro other
    rw [same, accounts.bodies, List.mem_append, List.mem_singleton]
    refine ⟨.inl, fun listed => listed.elim id ?_⟩
    rintro rfl
    exact before
  · intro other
    refine (redefinitions_report checker (.redefinition name) other).trans ?_
    rw [accounts.counted other, List.count_append, List.count_singleton]
    by_cases same : name = other
    · subst same
      -- There is a first body, so one more body is one more report.
      have positive := List.count_pos_iff.mpr before
      simp
      omega
    · simp [same]

/-- A definition is taken into account, and all but the first one of a name are reported. -/
theorem Accounts.defineFunction (accounts : checker.Accounts declared defined) (name : String)
    (type : Ty) :
    (checker.defineFunction name type).2.Accounts (declared ++ [(name, type)])
      (defined ++ [name]) := by
  unfold Checker.defineFunction
  split
  · next again =>
    have known : name ∈ checker.defined := List.contains_iff_mem.mp again
    dsimp only
    -- The declaration may be left out, but only behind the report that has just been made.
    split
    · exact (accounts.further known fun _ => Iff.rfl).reported (by simp [report]) _
    · refine (accounts.further known fun other => ?_).declareFunction name type
      show other ∈ name :: checker.defined ↔ _
      rw [List.mem_cons]
      exact ⟨fun listed => listed.elim (fun same => same ▸ known) id, .inr⟩
  · next fresh =>
    exact (accounts.first (mt List.contains_iff_mem.mpr fresh)).declareFunction name type

/-- Forgetting the parameters of a function without a body leaves the unit as it is. -/
theorem leaves_closeParameters (inside : checker.Inside) :
    checker.Leaves checker.closeParameters ∧
      checker.closeParameters.symbols.active = checker.symbols.active.tail := by
  have inner : checker.closeScope.1 ≠ unitScope := inside.inner
  unfold closeParameters
  dsimp only
  rw [if_neg inner]
  -- Only the symbols of the inner scope are dropped, and the unit is another one.
  refine ⟨⟨?_, rfl, fun _ => rfl, id, ?_⟩, rfl⟩
  · unfold unit SymbolTable.discard
    dsimp only
    rw [SymbolTable.symbolsOf_modifySymbols, if_neg fun same => inner same.1]
    rfl
  · simp [SymbolTable.discard, SymbolTable.modifySymbols, closeScope, SymbolTable.closeScope]

/-- Placing symbols leaves the accounts as they are. -/
theorem Accounts.placed (accounts : checker.Accounts declared defined) {symbols : SymbolTable}
    (alike : checker.symbols.Alike symbols) : Accounts { checker with symbols } declared defined :=
  accounts.leaves ⟨alike.declarations unitScope, rfl, fun _ => rfl, id, alike.opened.ge⟩

/-- Accounts do not depend on places. -/
theorem Accounts.of_unplaced (accounts : checker.unplaced.Accounts declared defined) :
    checker.Accounts declared defined := by
  refine accounts.leaves ⟨rfl, rfl, fun name => ?_, fun silent => ?_, Nat.le_refl _⟩
  · unfold redefinitions unplaced
    rw [List.countP_map]
    rfl
  · unfold unplaced
    rw [silent]
    rfl

end Checker

/-! Units are checked in order. -/

/-- The type of a function is made of the types of its parameters. -/
theorem elaborate_parameters (specifier : Specifier) (indirection : Nat) (parameters : Parameters)
    (checker : Checker) :
    (parameters.elaborate specifier indirection checker).1.1 =
      parameters.type specifier indirection := by
  have types (listed : List Parameter) (checker : Checker) :
      (listed.mapM' Parameter.elaborate checker).1 =
        listed.map fun parameter => .scalar parameter.specifier parameter.indirection := by
    induction listed generalizing checker with
    | nil => rfl
    | cons first rest ih => exact congrArg (_ :: ·) (ih _)
  exact congrArg (Ty.function specifier indirection · parameters.variadic) (types _ _)

/-- Parameters are declared in a scope of their own, in which the checker is inside. -/
theorem leaves_parameters (specifier : Specifier) (indirection : Nat) (parameters : Parameters)
    {checker : Checker} (rooted : unitScope < checker.symbols.scopes.length) :
    let listed := (parameters.elaborate specifier indirection checker).2
    checker.Leaves listed ∧ listed.Inside ∧
      listed.symbols.active.tail = checker.symbols.active := by
  have opening := Checker.leaves_openScope checker
  have entered := Checker.inside_openScope rooted
  obtain ⟨leaves, active⟩ := Checking.local_mapM Parameter.local_elaborate parameters.listed
    checker.openScope.2 entered
  exact ⟨opening.trans leaves, entered.later leaves active, congrArg List.tail active⟩

section Units

variable {checker : Checker} {declared : List (String × Ty)} {defined : List String}

/-- A variable or a function without a body is taken into account. -/
theorem GlobalDeclarator.accounts_elaborate (specifier : Specifier) (declarator : GlobalDeclarator)
    (accounts : checker.Accounts declared defined) (top : checker.symbols.active = [unitScope]) :
    let made := (declarator.elaborate specifier checker).2
    made.Accounts (declared ++ [declarator.declaration specifier]) defined ∧
      made.symbols.active = [unitScope] := by
  cases declarator with
  | object object =>
    have outermost : checker.current = unitScope := by
      unfold Checker.current SymbolTable.current?
      rw [top]
      rfl
    have active := (Checker.extends_declareVariable checker object.name
      (object.type specifier)).active
    refine ⟨?_, active.trans top⟩
    show (checker.declareVariable object.name (object.type specifier)).2.Accounts _ _
    rw [Checker.declareVariable_eq outermost]
    exact accounts.declareFunction _ _
  | prototype indirection name parameters =>
    obtain ⟨leaves, inside, around⟩ := leaves_parameters specifier indirection parameters
      accounts.rooted
    obtain ⟨closing, active⟩ := Checker.leaves_closeParameters inside
    -- Of the parameters, only their types in that of the function are left.
    have made := ((accounts.leaves leaves).leaves closing).declareFunction name
      (parameters.elaborate specifier indirection checker).1.1
    have same := (Checker.extends_declareFunction
      (parameters.elaborate specifier indirection checker).2.closeParameters name
      (parameters.elaborate specifier indirection checker).1.1).active
    refine ⟨?_, same.trans (active.trans (around.trans top))⟩
    dsimp only [GlobalDeclarator.declaration]
    rw [← elaborate_parameters specifier indirection parameters checker]
    exact made

theorem GlobalDeclarator.accounts_elaborateAll (specifier : Specifier)
    (declarators : List GlobalDeclarator) (accounts : checker.Accounts declared defined)
    (top : checker.symbols.active = [unitScope]) :
    let made := (declarators.mapM' (GlobalDeclarator.elaborate specifier) checker).2
    made.Accounts (declared ++ declarators.map (·.declaration specifier)) defined ∧
      made.symbols.active = [unitScope] := by
  induction declarators generalizing checker declared with
  | nil =>
    rw [List.map_nil, List.append_nil]
    exact ⟨accounts, top⟩
  | cons first rest ih =>
    -- The scope of the unit is current again behind each declarator.
    obtain ⟨here, active⟩ := first.accounts_elaborate specifier accounts top
    obtain ⟨others, last⟩ := ih here active
    rw [List.append_assoc] at others
    exact ⟨others, last⟩

/-- A function with a body is taken into account. -/
theorem Definition.accounts_elaborate (definition : Definition)
    (accounts : checker.Accounts declared defined) (top : checker.symbols.active = [unitScope]) :
    let made := (definition.elaborate checker).2
    made.Accounts (declared ++ [definition.declaration]) (defined ++ [definition.name]) ∧
      made.symbols.active = [unitScope] := by
  obtain ⟨leaves, inside, around⟩ := leaves_parameters definition.specifier definition.indirection
    definition.parameters accounts.rooted
  let signature := definition.parameters.elaborate definition.specifier definition.indirection
    checker
  let begun := signature.2.beginFunction (.scalar definition.specifier definition.indirection)
  let named := begun.defineFunction definition.name signature.1.1
  have begins : signature.2.Leaves begun := ⟨rfl, rfl, fun _ => rfl, id, Nat.le_refl _⟩
  have noted : named.2.Accounts (declared ++ [definition.declaration])
      (defined ++ [definition.name]) := by
    unfold Definition.declaration
    rw [← elaborate_parameters definition.specifier definition.indirection _ checker]
    exact ((accounts.leaves leaves).leaves begins).defineFunction definition.name signature.1.1
  -- The body is checked inside of the scope of the parameters, which ends with it.
  have active : named.2.symbols.active = signature.2.symbols.active :=
    (Checker.extends_defineFunction begun definition.name signature.1.1).active
  have within : named.2.Inside := by
    refine ⟨?_, noted.rooted⟩
    have same : named.2.current = signature.2.current := by
      unfold Checker.current SymbolTable.current?
      rw [active]
    exact same ▸ inside.inner
  have inner : Checking.Local (do
      discard (definition.declared.mapM' Declaration.elaborate)
      Clause.elaborateAll definition.body) :=
    (Checking.local_mapM Declaration.local_elaborate _).discard.bind fun _ =>
      Clause.local_elaborateAll _
  obtain ⟨leaving, same⟩ := inner named.2 within
  refine ⟨(noted.leaves leaving).leaves (Checker.leaves_closeScope _), ?_⟩
  exact (congrArg List.tail (same.trans active)).trans (around.trans top)

/-- A unit is taken into account from beginning to end, whatever becomes of its functions as long as
only places change. -/
theorem Global.accounts_elaborateAll {σ : Type} {consume : Consumer σ}
    (alike : ∀ (function : Function) (symbols : SymbolTable) (output : σ),
      symbols.Alike (consume function symbols output).1)
    (globals : List Global) (output : σ) (accounts : checker.Accounts declared defined)
    (top : checker.symbols.active = [unitScope]) :
    (Global.elaborateAll consume globals checker output).1.Accounts
      (declared ++ declaredIn globals) (defined ++ definedNames globals) := by
  induction globals generalizing checker declared defined output with
  | nil => simpa [declaredIn, definedNames, Global.elaborateAll] using accounts
  | cons first rest ih =>
    cases first with
    | declaration specifier declarators =>
      obtain ⟨here, active⟩ := GlobalDeclarator.accounts_elaborateAll specifier declarators
        accounts top
      have others := ih output here active
      rw [List.append_assoc] at others
      exact others
    | definition definition =>
      obtain ⟨here, active⟩ := definition.accounts_elaborate accounts top
      let made := definition.elaborate checker
      -- The function is handed on before the rest of the unit is read, and only places change.
      have same := alike made.1 made.2.symbols output
      have others := ih (consume made.1 made.2.symbols output).2 (here.placed same)
        (same.active.trans active)
      rw [List.append_assoc, List.append_assoc] at others
      exact others

end Units

/-- Where a unit starts, nothing has been declared. -/
theorem Checker.accounts_start : Checker.Accounts {} [] [] := by
  have nothing : Checker.unit {} = [] := congrArg _ (SymbolTable.symbolsOf_start unitScope)
  refine ⟨Nat.zero_lt_one, ?_, ?_, fun _ => List.nil_subset _, by simp, by simp [redefinitions]⟩
  · rw [nothing]
    exact List.nodup_nil
  · rw [nothing]
    exact List.nil_subset _

end SmallC
