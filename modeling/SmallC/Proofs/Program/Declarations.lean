import SmallC.Program.Symbols

/-! What a table of symbols has declared, which later declarations and frames leave alone. -/

namespace SmallC

/-- The name and the type a symbol was declared with. -/
def Symbol.declaration (symbol : Symbol) : String × Ty := (symbol.name, symbol.type)

namespace SymbolTable

/-- The declaration an id stands for. -/
def declared? (table : SymbolTable) (id : SymbolId) : Option (String × Ty) :=
  (table.symbol? id).map Symbol.declaration

/-- Every declaration of the old table stands in the new one. -/
def Keeps (old new : SymbolTable) : Prop :=
  ∀ id declaration, old.declared? id = some declaration → new.declared? id = some declaration

/-- The tables agree on everything but the places of symbols in frames. -/
structure Alike (old new : SymbolTable) : Prop where
  /-- The same symbols are declared. -/
  declared : ∀ id, new.declared? id = old.declared? id
  /-- The same scopes are in force. -/
  active : new.active = old.active
  /-- As many scopes have been opened. -/
  opened : new.scopes.length = old.scopes.length

/-- A table keeps its own declarations. -/
theorem Keeps.refl (table : SymbolTable) : table.Keeps table := by
  intro id declaration known
  exact known

/-- Declarations are kept through any number of changes. -/
theorem Keeps.trans {first second third : SymbolTable} (early : first.Keeps second)
    (late : second.Keeps third) : first.Keeps third := by
  intro id declaration known
  exact late id declaration (early id declaration known)

/-- A table is like itself. -/
theorem Alike.refl (table : SymbolTable) : table.Alike table :=
  ⟨fun _ => rfl, rfl, rfl⟩

/-- Likeness passes through a table in between. -/
theorem Alike.trans {first second third : SymbolTable} (early : first.Alike second)
    (late : second.Alike third) : first.Alike third :=
  ⟨fun id => (late.declared id).trans (early.declared id), late.active.trans early.active,
    late.opened.trans early.opened⟩

/-- Tables that are alike keep each other's declarations. -/
theorem Alike.keeps {old new : SymbolTable} (alike : old.Alike new) : old.Keeps new := by
  intro id declaration known
  rw [alike.declared id, known]

/-- The type of a symbol is the one of its declaration. -/
theorem typeOf_eq_declared (table : SymbolTable) (id : SymbolId) :
    table.typeOf id = ((table.declared? id).map Prod.snd).getD .error := by
  -- Both read the same symbol.
  unfold typeOf declared?
  cases table.symbol? id <;> rfl

/-- The name of a symbol is the one of its declaration. -/
theorem nameOf_eq_declared (table : SymbolTable) (id : SymbolId) :
    table.nameOf id = ((table.declared? id).map Prod.fst).getD "" := by
  unfold nameOf declared?
  cases table.symbol? id <;> rfl

/-- A symbol with a proper type has been declared. -/
theorem declared_of_typeOf {table : SymbolTable} {id : SymbolId}
    (known : table.typeOf id ≠ .error) :
    table.declared? id = some (table.nameOf id, table.typeOf id) := by
  -- An id that names no symbol has the error type.
  rw [typeOf_eq_declared, nameOf_eq_declared] at *
  cases found : table.declared? id with
  | none => simp [found] at known
  | some declaration => simp

/-- A declared symbol keeps its type. -/
theorem Keeps.typeOf {old new : SymbolTable} (keeps : old.Keeps new) {id : SymbolId}
    (known : old.typeOf id ≠ .error) : new.typeOf id = old.typeOf id := by
  have kept := keeps id _ (declared_of_typeOf known)
  rw [typeOf_eq_declared new, kept]
  rfl

/-- Tables that are alike agree on every type. -/
theorem Alike.typeOf {old new : SymbolTable} (alike : old.Alike new) (id : SymbolId) :
    new.typeOf id = old.typeOf id := by
  rw [typeOf_eq_declared, typeOf_eq_declared, alike.declared]

/-- The symbols of a scope after a change to the symbols of one scope. -/
theorem symbolsOf_modifySymbols (table : SymbolTable) (scope other : ScopeId)
    (change : List Symbol → List Symbol) :
    (table.modifySymbols scope change).symbolsOf other =
      if scope = other ∧ other < table.scopes.length then change (table.symbolsOf other)
      else table.symbolsOf other := by
  -- A scope that does not exist has no symbols to change.
  unfold symbolsOf modifySymbols
  simp only [List.getElem?_modify]
  by_cases present : other < table.scopes.length
  · by_cases same : scope = other
    · simp [same, present]
    · simp [same]
  · simp [present]

/-- A scope that does not exist has no symbols. -/
theorem symbolsOf_absent {table : SymbolTable} {scope : ScopeId}
    (absent : table.scopes.length ≤ scope) : table.symbolsOf scope = [] := by
  unfold symbolsOf
  simp [List.getElem?_eq_none absent]

/-- A declared symbol is in a scope that has been opened. -/
theorem scope_lt_of_declared {table : SymbolTable} {id : SymbolId} {declaration : String × Ty}
    (known : table.declared? id = some declaration) : id.scope < table.scopes.length := by
  rcases Nat.lt_or_ge id.scope table.scopes.length with within | absent
  · exact within
  · simp [declared?, symbol?, symbolsOf_absent absent] at known

/-- The declarations of a scope in order decide which symbols are declared in it. -/
theorem declared_eq_getElem (table : SymbolTable) (id : SymbolId) :
    table.declared? id = ((table.symbolsOf id.scope).map Symbol.declaration)[id.slot]? := by
  simp [declared?, symbol?]

/-- The declarations of a scope in the old table come first in the new one. -/
theorem Keeps.declarations {old new : SymbolTable} (keeps : old.Keeps new) (scope : ScopeId) :
    ((new.symbolsOf scope).map Symbol.declaration).take (old.symbolsOf scope).length =
      (old.symbolsOf scope).map Symbol.declaration := by
  -- Slot by slot, what the old table declares the new one does.
  have slots : ∀ slot < (old.symbolsOf scope).length,
      ((new.symbolsOf scope).map Symbol.declaration)[slot]? =
        ((old.symbolsOf scope).map Symbol.declaration)[slot]? := by
    intro slot within
    have known : old.declared? ⟨scope, slot⟩ = some (old.symbolsOf scope)[slot].declaration := by
      simp [declared_eq_getElem, within]
    have kept := keeps _ _ known
    rw [declared_eq_getElem] at known kept
    exact kept.trans known.symm
  apply List.ext_getElem?
  intro slot
  rw [List.getElem?_take]
  split
  · rename_i within
    exact slots slot within
  · rename_i beyond
    exact (List.getElem?_eq_none (by simpa using beyond)).symm

/-- The types of a scope's symbols in the old table come first in the new one. -/
theorem Keeps.types {old new : SymbolTable} (keeps : old.Keeps new) (scope : ScopeId) :
    ((new.symbolsOf scope).take (old.symbolsOf scope).length).map Symbol.type =
      (old.symbolsOf scope).map Symbol.type := by
  have same := congrArg (List.map Prod.snd) (keeps.declarations scope)
  rw [← List.map_take, List.map_map, List.map_map] at same
  exact same

/-- Changing places only, in one scope, gives a table that is alike. -/
theorem alike_modifySymbols (table : SymbolTable) (scope : ScopeId)
    (change : List Symbol → List Symbol)
    (same : (change (table.symbolsOf scope)).map Symbol.declaration =
      (table.symbolsOf scope).map Symbol.declaration) :
    table.Alike (table.modifySymbols scope change) := by
  -- Only one scope is changed, and its declarations are the same afterwards.
  refine ⟨?_, rfl, by simp [modifySymbols]⟩
  intro id
  rw [declared_eq_getElem, declared_eq_getElem, symbolsOf_modifySymbols]
  split
  · rename_i here
    rw [← here.1, same]
  · rfl

/-- Opening a scope leaves the symbols of all scopes alone. -/
@[simp] theorem symbolsOf_openScope (table : SymbolTable) (scope : ScopeId) :
    table.openScope.2.symbolsOf scope = table.symbolsOf scope := by
  -- The new scope is empty, as a scope that does not exist counts.
  unfold symbolsOf openScope
  rcases Nat.lt_trichotomy scope table.scopes.length with below | here | above
  · simp [List.getElem?_append_left below]
  · subst here
    simp
  · have absent : table.scopes[scope]? = none := List.getElem?_eq_none (by omega)
    have beyond : (table.scopes ++ [({ enclosing := table.current? } : Scope)])[scope]? = none :=
      List.getElem?_eq_none (by simp; omega)
    simp [absent, beyond]

/-- Where a unit starts, nothing has been declared. -/
theorem symbolsOf_start (scope : ScopeId) : (openScope {}).2.symbolsOf scope = [] := by
  rw [symbolsOf_openScope]
  rfl

/-- Opening a scope keeps all declarations. -/
theorem keeps_openScope (table : SymbolTable) : table.Keeps table.openScope.2 := by
  intro id declaration known
  rw [declared_eq_getElem] at known ⊢
  rw [symbolsOf_openScope, known]

/-- Closing a scope keeps all declarations. -/
theorem keeps_closeScope (table : SymbolTable) : table.Keeps table.closeScope.2 := by
  intro id declaration known
  exact known

/-- Entering a symbol keeps all declarations. -/
theorem keeps_insert (table : SymbolTable) (scope : ScopeId) (symbol : Symbol) :
    table.Keeps (table.insert scope symbol).2 := by
  intro id declaration known
  rw [declared_eq_getElem] at known ⊢
  simp only [insert, symbolsOf_modifySymbols]
  split
  · -- The new symbol comes after those that were there.
    rw [List.map_append, List.getElem?_append_left]
    · exact known
    · exact (List.getElem?_eq_some_iff.mp known).1
  · exact known

/-- The declarations that a table has after a symbol was entered. -/
theorem declared_insert {table : SymbolTable} {scope : ScopeId} {symbol : Symbol}
    {id : SymbolId} {declaration : String × Ty}
    (known : (table.insert scope symbol).2.declared? id = some declaration) :
    table.declared? id = some declaration ∨ declaration = symbol.declaration := by
  rw [declared_eq_getElem] at known ⊢
  simp only [insert, symbolsOf_modifySymbols] at known
  split at known
  · -- Past the symbols that were there stands only the new one.
    rw [List.map_append] at known
    rcases Nat.lt_or_ge id.slot ((table.symbolsOf id.scope).map Symbol.declaration).length
      with within | beyond
    · rw [List.getElem?_append_left within] at known
      exact .inl known
    · rw [List.getElem?_append_right beyond] at known
      have last := List.mem_of_getElem? known
      exact .inr (by simpa using last)
  · exact .inl known

/-- A symbol that was entered into a scope in existence is declared. -/
theorem declared_insert_self {table : SymbolTable} {scope : ScopeId} (symbol : Symbol)
    (present : scope < table.scopes.length) :
    (table.insert scope symbol).2.declared? (table.insert scope symbol).1 =
      some symbol.declaration := by
  rw [declared_eq_getElem]
  simp [insert, symbolsOf_modifySymbols, present]

/-- A symbol that is entered comes after those of its scope. -/
theorem symbolsOf_insert {table : SymbolTable} {scope : ScopeId} (symbol : Symbol)
    (present : scope < table.scopes.length) :
    (table.insert scope symbol).2.symbolsOf scope = table.symbolsOf scope ++ [symbol] := by
  simp [insert, symbolsOf_modifySymbols, present]

/-- Dropping the symbols of a scope that is newer than a table keeps its declarations. -/
theorem Keeps.discard {old new : SymbolTable} (keeps : old.Keeps new) {scope : ScopeId}
    (fresh : old.scopes.length ≤ scope) : old.Keeps (new.discard scope) := by
  -- What was declared is in a scope that was there already, and the discarded one is new.
  intro id declaration known
  have within := scope_lt_of_declared known
  have elsewhere : ¬ (scope = id.scope ∧ id.scope < new.scopes.length) := by
    intro here
    exact absurd (here.1 ▸ within) (Nat.not_lt.mpr fresh)
  have kept := keeps id declaration known
  rw [declared_eq_getElem] at kept ⊢
  unfold SymbolTable.discard
  rw [symbolsOf_modifySymbols, if_neg elsewhere, kept]

/-- What is declared after the symbols of a scope were dropped was declared before. -/
theorem declared_discard {table : SymbolTable} {scope : ScopeId} {id : SymbolId}
    {declaration : String × Ty} (known : (table.discard scope).declared? id = some declaration) :
    table.declared? id = some declaration := by
  rw [declared_eq_getElem] at known ⊢
  unfold SymbolTable.discard at known
  rw [symbolsOf_modifySymbols] at known
  split at known
  · simp at known
  · exact known

/-- A name that is found in a scope is declared there. -/
theorem declared_of_find {table : SymbolTable} {scope : ScopeId} {name : String} {id : SymbolId}
    (found : table.find? scope name = some id) : ∃ type, table.declared? id = some (name, type) := by
  -- The slot that is found holds a symbol with the name.
  unfold find? at found
  simp only [Option.map_eq_some_iff, Option.bind_eq_some_iff] at found
  obtain ⟨slot, ⟨held, present, located⟩, rfl⟩ := found
  obtain ⟨within, named, -⟩ := List.findIdx?_eq_some_iff_getElem.mp located
  refine ⟨held.symbols[slot].type, ?_⟩
  have spelled : held.symbols[slot].name = name := by simpa using named
  simp [declared?, symbol?, symbolsOf, present, within, Symbol.declaration, spelled]

/-- A name that is looked up with success is declared. -/
theorem declared_of_lookup {table : SymbolTable} {name : String} {id : SymbolId}
    (found : table.lookup? name = some id) : ∃ type, table.declared? id = some (name, type) := by
  obtain ⟨scope, -, here⟩ := List.exists_of_findSome?_eq_some found
  exact declared_of_find here

end SymbolTable

end SmallC
