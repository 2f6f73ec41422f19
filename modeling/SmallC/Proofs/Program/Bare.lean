import SmallC.Check.Checker
import SmallC.Proofs.Program.Declarations
import SmallC.Proofs.Program.Mapped

/-! Bare tables: what is left without the places of symbols in frames is all that checking reads. -/

namespace SmallC

/-- A symbol without its place. -/
def Symbol.bare (symbol : Symbol) : Symbol := { symbol with offset := 0 }

/-- A scope whose symbols have no places. -/
def Scope.bare (scope : Scope) : Scope := { scope with symbols := scope.symbols.map Symbol.bare }

theorem Symbol.map_bare_congr {symbols others : List Symbol}
    (same : symbols.map Symbol.declaration = others.map Symbol.declaration) :
    symbols.map Symbol.bare = others.map Symbol.bare := by
  have built : Symbol.bare = (fun pair => ⟨pair.1, pair.2, 0⟩) ∘ Symbol.declaration := rfl
  rw [built, ← List.map_map, same, List.map_map]

namespace SymbolTable

variable (table : SymbolTable)

/-- A table whose symbols have no places. -/
def bare : SymbolTable := { table with scopes := table.scopes.map Scope.bare }

theorem symbolsOf_bare (scope : ScopeId) :
    table.bare.symbolsOf scope = (table.symbolsOf scope).map Symbol.bare :=
  table.symbolsOf_mapped Symbol.bare scope

theorem find?_bare (scope : ScopeId) (name : String) :
    table.bare.find? scope name = table.find? scope name :=
  find?_mapped fun _ _ => .rfl

theorem lookup?_bare (name : String) : table.bare.lookup? name = table.lookup? name :=
  lookup?_mapped fun _ _ _ => .rfl

theorem typeOf_bare (id : SymbolId) : table.bare.typeOf id = table.typeOf id :=
  table.typeOf_mapped Symbol.bare (fun _ => rfl) id

/-- A change to places only is none to the bare table. -/
theorem bare_places {scope : ScopeId} {change : List Symbol → List Symbol}
    (same : (change (table.symbolsOf scope)).map Symbol.declaration =
      (table.symbolsOf scope).map Symbol.declaration) :
    (table.modifySymbols scope change).bare = table.bare := by
  have changed : (table.modifySymbols scope change).bare = table.bare.modifySymbols scope id :=
    mapped_modifySymbols scope (Symbol.map_bare_congr same)
  exact changed.trans (congrArg (fun scopes => { table.bare with scopes }) (List.modify_id scope _))

theorem bare_openScope :
    table.bare.openScope = (table.openScope.1, table.openScope.2.bare) :=
  table.openScope_mapped Symbol.bare

theorem bare_discard (scope : ScopeId) : table.bare.discard scope = (table.discard scope).bare :=
  table.discard_mapped Symbol.bare scope

/-- A symbol is entered without a place. -/
theorem bare_insert (scope : ScopeId) {symbol : Symbol} (placeless : symbol.bare = symbol) :
    table.bare.insert scope symbol =
      ((table.insert scope symbol).1, (table.insert scope symbol).2.bare) := by
  have entered := table.insert_mapped Symbol.bare scope symbol
  rwa [placeless] at entered

end SymbolTable

/-- A checker whose symbols have no places. -/
def Checker.bare (checker : Checker) : Checker := { checker with symbols := checker.symbols.bare }

/-- A step of checking that takes no notice of the places of symbols. -/
def Frameless {α : Type} (step : Checker → α × Checker) : Prop :=
  ∀ checker : Checker, step checker.bare = ((step checker).1, (step checker).2.bare)

namespace Checker

@[simp] theorem symbols_bare (checker : Checker) : checker.bare.symbols = checker.symbols.bare := rfl

@[simp] theorem current_bare (checker : Checker) : checker.bare.current = checker.current := rfl

theorem frameless_record {α : Type} (verdict : Verdict α) : Frameless (record verdict) := by
  intro checker
  unfold record
  cases verdict.problem? <;> rfl

theorem frameless_openScope : Frameless openScope := by
  intro checker
  simp only [openScope, symbols_bare, SymbolTable.bare_openScope]
  rfl

theorem frameless_closeScope : Frameless closeScope := fun _ => rfl

theorem bare_closeParameters (checker : Checker) :
    checker.bare.closeParameters = checker.closeParameters.bare := by
  unfold closeParameters
  rw [frameless_closeScope]
  dsimp only
  split
  · rfl
  · simp only [symbols_bare, SymbolTable.bare_discard]
    rfl

theorem frameless_enter (scope : ScopeId) (name : String) (type : Ty) :
    Frameless (enter · scope name type) := by
  intro checker
  have placeless : ({ name, type } : Symbol).bare = { name, type } := rfl
  simp only [enter, symbols_bare, SymbolTable.bare_insert _ _ placeless]
  rfl

theorem frameless_declareVariable (name : String) (type : Ty) :
    Frameless (declareVariable name type) := by
  intro checker
  unfold declareVariable
  simp only [symbols_bare, current_bare, SymbolTable.find?_bare, SymbolTable.typeOf_bare]
  -- Names and types are found alike, and what is entered gets no place.
  cases checker.symbols.find? checker.current name with
  | none => exact frameless_enter _ _ _ checker
  | some existing =>
    dsimp only
    split
    · rfl
    · split <;> rfl

theorem frameless_declareFunction (name : String) (type : Ty) :
    Frameless (declareFunction name type) := by
  intro checker
  unfold declareFunction
  simp only [symbols_bare, SymbolTable.find?_bare, SymbolTable.typeOf_bare]
  -- Names and types are found alike, and what is entered gets no place.
  cases checker.symbols.find? unitScope name with
  | none => exact frameless_enter _ _ _ checker
  | some existing =>
    dsimp only
    split <;> rfl

theorem frameless_declareDefined (name : String) (type : Ty) :
    Frameless (declareDefined name type) :=
  fun checker => frameless_declareFunction name type
    { checker with defined := name :: checker.defined }

theorem frameless_defineFunction (name : String) (type : Ty) :
    Frameless (defineFunction name type) := by
  intro checker
  unfold defineFunction
  have defined : checker.bare.defined = checker.defined := rfl
  -- The name is looked for in a table that is the same but for places.
  have found : (checker.bare.report (.redefinition name)).symbols.find? unitScope name =
      (checker.report (.redefinition name)).symbols.find? unitScope name :=
    SymbolTable.find?_bare _ _ _
  rw [defined]
  split
  · dsimp only
    rw [found]
    split
    · rfl
    · exact frameless_declareDefined name type (checker.report (.redefinition name))
  · exact frameless_declareDefined name type checker

theorem frameless_resolve (name : String) : Frameless (resolve name) := by
  intro checker
  unfold resolve
  rw [symbols_bare, SymbolTable.lookup?_bare]
  split
  · rfl
  · exact frameless_enter _ _ _ (checker.report (.undeclared name))

end Checker

end SmallC
