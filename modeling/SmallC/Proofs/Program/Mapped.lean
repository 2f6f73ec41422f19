import SmallC.Program.Symbols

/-! Mapped tables: every symbol is changed in its slot, and what is asked of a table follows. -/

namespace SmallC

/-- A scope whose symbols are changed. -/
def Scope.mapped (change : Symbol → Symbol) (scope : Scope) : Scope :=
  { scope with symbols := scope.symbols.map change }

/-- A scope whose symbols are told apart from a name as before has it in the same slot. -/
theorem Scope.slotOf?_mapped (scope : Scope) {change : Symbol → Symbol} {name other : String}
    (same : ∀ symbol ∈ scope.symbols, (change symbol).name = other ↔ symbol.name = name) :
    (scope.mapped change).slotOf? other = scope.slotOf? name := by
  -- The search asks the same of every symbol, so it stops at the same one.
  have tests (symbol : Symbol) (member : symbol ∈ scope.symbols) :
      ((change symbol).name == other) = (symbol.name == name) :=
    Bool.eq_iff_iff.mpr (by simpa using same symbol member)
  unfold slotOf? mapped
  rw [List.findIdx?_map]
  generalize scope.symbols = symbols at tests
  induction symbols with
  | nil => rfl
  | cons first rest ih => simp_all [List.findIdx?_cons]

namespace SymbolTable

variable (change : Symbol → Symbol) (table : SymbolTable)

/-- A table whose symbols are changed. -/
def mapped : SymbolTable := { table with scopes := table.scopes.map (Scope.mapped change) }

theorem symbolsOf_mapped (scope : ScopeId) :
    (table.mapped change).symbolsOf scope = (table.symbolsOf scope).map change := by
  unfold symbolsOf mapped
  rw [List.getElem?_map]
  cases table.scopes[scope]? <;> rfl

theorem symbol?_mapped (id : SymbolId) :
    (table.mapped change).symbol? id = (table.symbol? id).map change := by
  unfold symbol?
  rw [symbolsOf_mapped, List.getElem?_map]

/-- Where types stay the same, every id has the type it had. -/
theorem typeOf_mapped (typed : ∀ symbol, (change symbol).type = symbol.type) (id : SymbolId) :
    (table.mapped change).typeOf id = table.typeOf id := by
  unfold typeOf
  rw [symbol?_mapped]
  cases table.symbol? id with
  | none => rfl
  | some held => exact typed held

/-- Where places stay the same, every id has the place it had. -/
theorem offsetOf_mapped (placed : ∀ symbol, (change symbol).offset = symbol.offset) (id : SymbolId) :
    (table.mapped change).offsetOf id = table.offsetOf id := by
  unfold offsetOf
  rw [symbol?_mapped]
  cases table.symbol? id with
  | none => rfl
  | some held => exact placed held

variable {change table} {name other : String}

/-- A name is found as before where symbols are told apart from it as before. -/
theorem find?_mapped {scope : ScopeId}
    (same : ∀ symbol ∈ table.symbolsOf scope, (change symbol).name = other ↔ symbol.name = name) :
    (table.mapped change).find? scope other = table.find? scope name := by
  unfold find? mapped
  unfold symbolsOf at same
  rw [List.getElem?_map]
  -- Symbols keep their slots, so the first one of the name is in the same slot.
  cases found : table.scopes[scope]? with
  | none => rfl
  | some held =>
    rw [found] at same
    have slots := held.slotOf?_mapped same
    simp [slots]

/-- A name is looked up as before where symbols of all scopes are told apart from it as before. -/
theorem lookup?_mapped (same : ∀ scope, ∀ symbol ∈ table.symbolsOf scope,
      (change symbol).name = other ↔ symbol.name = name) :
    (table.mapped change).lookup? other = table.lookup? name :=
  congrArg (List.findSome? · table.active) (funext fun scope => find?_mapped (same scope))

/-- Symbols may be changed before or after all those of a scope are. -/
theorem mapped_modifySymbols (scope : ScopeId) {before after : List Symbol → List Symbol}
    (same : (before (table.symbolsOf scope)).map change =
      after ((table.symbolsOf scope).map change)) :
    (table.modifySymbols scope before).mapped change =
      (table.mapped change).modifySymbols scope after := by
  have scopes : (table.scopes.modify scope fun old => { old with symbols := before old.symbols }).map
      (Scope.mapped change) = (table.scopes.map (Scope.mapped change)).modify scope
        fun old => { old with symbols := after old.symbols } := by
    -- Scope by scope, only the one in question is changed on either side.
    apply List.ext_getElem?
    intro index
    rw [List.getElem?_map, List.getElem?_modify, List.getElem?_modify, List.getElem?_map]
    unfold symbolsOf at same
    by_cases here : scope = index
    · subst here
      cases found : table.scopes[scope]? with
      | none => rfl
      | some held =>
        rw [found] at same
        simpa [Scope.mapped] using same
    · simp [here]
  unfold modifySymbols mapped
  rw [scopes]

variable (change table)

theorem openScope_mapped :
    (table.mapped change).openScope = (table.openScope.1, table.openScope.2.mapped change) := by
  simp [openScope, mapped, Scope.mapped, current?]

theorem discard_mapped (scope : ScopeId) :
    (table.mapped change).discard scope = (table.discard scope).mapped change := by
  have dropped : ([] : List Symbol).map change = [] := rfl
  exact (mapped_modifySymbols scope dropped).symm

/-- A symbol is changed before or after it is entered. -/
theorem insert_mapped (scope : ScopeId) (symbol : Symbol) :
    (table.mapped change).insert scope (change symbol) =
      ((table.insert scope symbol).1, (table.insert scope symbol).2.mapped change) := by
  -- No symbol is lost, so the new one gets the same slot.
  have entered : (table.modifySymbols scope (· ++ [symbol])).mapped change =
      (table.mapped change).modifySymbols scope (· ++ [change symbol]) :=
    mapped_modifySymbols scope List.map_append
  simp only [insert, symbolsOf_mapped, List.length_map, entered]

end SymbolTable

end SmallC
