import SmallC.Lowering.Frame
import SmallC.Proofs.Program.Declarations
import SmallC.Proofs.Scoping.Names

/-! Tables of symbols follow the scoping of a source: every lookup finds what the names in force say. -/

namespace SmallC

namespace SymbolTable

/-- The names of a scope in the order of declaration. -/
def namesOf (table : SymbolTable) (scope : ScopeId) : List String :=
  (table.symbolsOf scope).map Symbol.name

/-- The scopes that are open in a table, with the names they have declared. -/
def scoping (table : SymbolTable) : Scoping :=
  ⟨table.scopes.length, table.active.map fun scope => ⟨scope, table.namesOf scope⟩⟩

@[simp] theorem scopes_scoping (table : SymbolTable) : table.scoping.scopes = table.active := by
  unfold scoping Scoping.scopes
  rw [List.map_map]
  exact List.map_id _

/-- A scope is searched by the names that it has declared. -/
theorem find?_eq (table : SymbolTable) (scope : ScopeId) (name : String) :
    table.find? scope name = Level.find? ⟨scope, table.namesOf scope⟩ name := by
  unfold find? Level.find? namesOf symbolsOf Scope.slotOf? List.idxOf?
  cases table.scopes[scope]? with
  | none => rfl
  | some held =>
    simp only [Option.bind_some, Option.map_some, Option.getD_some, List.findIdx?_map]
    rfl

/-- A name is looked up as the open scopes say. -/
theorem lookup?_eq (table : SymbolTable) (name : String) :
    table.lookup? name = table.scoping.denotes? name := by
  unfold lookup? scoping Scoping.denotes?
  rw [List.findSome?_map]
  congr 1
  funext scope
  exact table.find?_eq scope name

/-- Nothing is found of a name exactly where it is not declared. -/
theorem find?_eq_none {table : SymbolTable} {scope : ScopeId} {name : String} :
    table.find? scope name = none ↔ name ∉ table.namesOf scope := by
  rw [find?_eq, Level.find?, Option.map_eq_none_iff, List.idxOf?_eq_none_iff]

/-- Tables that agree on all but the places of symbols have the same declarations in every scope. -/
theorem Alike.declarations {old new : SymbolTable} (alike : old.Alike new) (scope : ScopeId) :
    (new.symbolsOf scope).map Symbol.declaration = (old.symbolsOf scope).map Symbol.declaration := by
  apply List.ext_getElem?
  intro slot
  have here := alike.declared ⟨scope, slot⟩
  rwa [declared_eq_getElem, declared_eq_getElem] at here

/-- Every symbol was there before only places have changed, perhaps in another place. -/
theorem Alike.mem {old new : SymbolTable} (alike : old.Alike new) {scope : ScopeId}
    {symbol : Symbol} (member : symbol ∈ new.symbolsOf scope) :
    ∃ known ∈ old.symbolsOf scope, known.declaration = symbol.declaration := by
  rw [← List.mem_map, ← alike.declarations]
  exact List.mem_map_of_mem member

/-- Tables that agree on all but the places of symbols have the same ids. -/
theorem Alike.ids {old new : SymbolTable} (alike : old.Alike new) (scope : ScopeId) :
    new.ids scope = old.ids scope := by
  have same := congrArg List.length (alike.declarations scope)
  rw [List.length_map, List.length_map] at same
  unfold SymbolTable.ids
  rw [same]

/-- What is found under the ids of a scope, behind the first ones, is found with its symbols. -/
theorem map_ids {α : Type} (table : SymbolTable) (scope : ScopeId) (skip : Nat)
    {place : SymbolId → α} {view : Symbol → α}
    (same : ∀ index symbol, skip ≤ index → (table.symbolsOf scope)[index]? = some symbol →
      place ⟨scope, index⟩ = view symbol) :
    ((table.ids scope).drop skip).map place = ((table.symbolsOf scope).drop skip).map view := by
  -- The ids of a scope are counted out, so both lists are looked at by index.
  refine List.ext_getElem? fun index => ?_
  simp only [ids, List.getElem?_map, List.getElem?_drop]
  cases found : (table.symbolsOf scope)[skip + index]? with
  | none =>
    have beyond := List.getElem?_eq_none_iff.mp found
    simp [beyond]
  | some symbol =>
    have within := (List.getElem?_eq_some_iff.mp found).1
    simp [within, same _ symbol (Nat.le_add_right _ _) found]

/-- Tables that agree on all but the places of symbols have the same symbols. -/
theorem Alike.known {old new : SymbolTable} (alike : old.Alike new) {symbol : SymbolId}
    (known : (old.symbol? symbol).isSome) : (new.symbol? symbol).isSome := by
  have declared := alike.declared symbol
  unfold declared? at declared
  rwa [← Option.isSome_map, declared, Option.isSome_map]

/-- Tables that agree on all but the places of symbols have the same scoping. -/
theorem Alike.scoping {old new : SymbolTable} (alike : old.Alike new) :
    new.scoping = old.scoping := by
  -- The declarations of a scope include its names.
  have names (scope : ScopeId) : new.namesOf scope = old.namesOf scope := by
    have firsts := congrArg (List.map Prod.fst) (alike.declarations scope)
    rwa [List.map_map, List.map_map] at firsts
  unfold SymbolTable.scoping
  rw [alike.opened, alike.active, funext names]

theorem scoping_openScope (table : SymbolTable) :
    table.openScope.2.scoping = table.scoping.enter := by
  have names (scope : ScopeId) : table.openScope.2.namesOf scope = table.namesOf scope := by
    unfold namesOf
    rw [symbolsOf_openScope]
  -- The new scope has no names, as a scope that does not exist counts.
  have fresh : table.namesOf table.scopes.length = [] := by
    unfold namesOf
    rw [symbolsOf_absent (Nat.le_refl _)]
    rfl
  unfold scoping
  rw [funext names]
  simp [openScope, Scoping.enter, fresh]

theorem scoping_closeScope (table : SymbolTable) :
    table.closeScope.2.scoping = table.scoping.leave := by
  unfold scoping closeScope Scoping.leave
  rw [← List.map_tail]
  rfl

/-- Dropping the symbols of a scope that is closed changes nothing about the open ones. -/
theorem scoping_discard {table : SymbolTable} {scope : ScopeId} (closed : scope ∉ table.active) :
    (table.discard scope).scoping = table.scoping := by
  unfold SymbolTable.scoping
  have opened : (table.discard scope).scopes.length = table.scopes.length := by
    simp [discard, modifySymbols]
  rw [opened]
  congr 1
  refine List.map_congr_left fun other present => ?_
  -- Only the names of the closed scope change, and it is none of the open ones.
  have differs : ¬ (scope = other ∧ other < table.scopes.length) := by
    rintro ⟨rfl, _⟩
    exact closed present
  unfold namesOf discard
  rw [symbolsOf_modifySymbols, if_neg differs]

/-- A new symbol declares its name in its scope. -/
theorem scoping_insert {table : SymbolTable} {scope : ScopeId} {symbol : Symbol}
    (present : scope < table.scopes.length) (absent : table.find? scope symbol.name = none) :
    (table.insert scope symbol).2.scoping = table.scoping.declareIn scope symbol.name := by
  have missing := find?_eq_none.mp absent
  have opened : (table.insert scope symbol).2.scopes.length = table.scopes.length := by
    simp [insert, modifySymbols]
  unfold SymbolTable.scoping Scoping.declareIn
  rw [opened, List.map_map]
  congr 1
  refine List.map_congr_left fun other _ => ?_
  -- The levels of the other scopes stay as they are.
  by_cases here : other = scope
  · subst here
    simp only [Function.comp_apply, if_pos, Level.declare, if_neg missing]
    unfold namesOf
    rw [symbolsOf_insert symbol present, List.map_append]
    rfl
  · have differs : ¬ (scope = other ∧ other < table.scopes.length) := fun same => here same.1.symm
    simp only [Function.comp_apply, if_neg here]
    unfold namesOf insert
    rw [symbolsOf_modifySymbols, if_neg differs]

/-- What checking does to a table: scopes are opened and closed, and symbols are entered that have
no place yet and, inside of functions, will need one. -/
inductive Declares : SymbolTable → SymbolTable → Prop where
  /-- Nothing. -/
  | refl (table : SymbolTable) : Declares table table
  /-- A scope is opened. -/
  | opening (table : SymbolTable) : Declares table table.openScope.2
  /-- The innermost scope is closed. -/
  | closing (table : SymbolTable) : Declares table table.closeScope.2
  /-- A symbol is entered. -/
  | entering (table : SymbolTable) (scope : ScopeId) {symbol : Symbol} (unplaced : symbol.offset = 0)
    (stored : scope ≠ unitScope → 0 < storageSize symbol.type) :
    Declares table (table.insert scope symbol).2
  /-- One thing after the other. -/
  | trans {first second third : SymbolTable} (early : Declares first second)
    (late : Declares second third) : Declares first third

/-- Checking keeps what has been declared. -/
theorem Declares.keeps {old new : SymbolTable} (declares : old.Declares new) : old.Keeps new := by
  induction declares with
  | refl => exact .refl _
  | opening table => exact table.keeps_openScope
  | closing table => exact table.keeps_closeScope
  | entering table scope => exact table.keeps_insert scope _
  | trans _ _ early late => exact early.trans late

/-- Only symbols of the unit may lack storage, and they have no places in frames. -/
structure Ready (table : SymbolTable) : Prop where
  /-- Symbols of the unit have no place in a frame. -/
  unplaced : ∀ symbol ∈ table.symbolsOf unitScope, symbol.offset = 0
  /-- All others take storage. -/
  stored : ∀ scope, scope ≠ unitScope → ∀ symbol ∈ table.symbolsOf scope,
    0 < storageSize symbol.type

/-- What takes storage still does where only places have changed. -/
theorem Alike.stored {old new : SymbolTable} (alike : old.Alike new) {scope : ScopeId}
    (stored : ∀ symbol ∈ old.symbolsOf scope, 0 < storageSize symbol.type) :
    ∀ symbol ∈ new.symbolsOf scope, 0 < storageSize symbol.type := by
  intro symbol member
  obtain ⟨known, present, same⟩ := alike.mem member
  have type : known.type = symbol.type := congrArg Prod.snd same
  exact type ▸ stored known present

/-- A symbol of a table into which one was entered is an old one or the new one. -/
theorem mem_symbolsOf_insert {table : SymbolTable} {scope other : ScopeId} {symbol old : Symbol}
    (member : old ∈ (table.insert scope symbol).2.symbolsOf other) :
    old ∈ table.symbolsOf other ∨ (other = scope ∧ old = symbol) := by
  unfold insert at member
  rw [symbolsOf_modifySymbols] at member
  split at member
  · next here =>
    rcases List.mem_append.mp member with before | added
    · exact .inl before
    · exact .inr ⟨here.1.symm, List.mem_singleton.mp added⟩
  · exact .inl member

/-- Checking leaves a table ready. -/
theorem Declares.ready {old new : SymbolTable} (declares : old.Declares new) (ready : old.Ready) :
    new.Ready := by
  induction declares with
  | refl => exact ready
  | opening table =>
    refine ⟨?_, ?_⟩ <;> intros
    · exact ready.unplaced _ (by rwa [symbolsOf_openScope] at *)
    · exact ready.stored _ (by assumption) _ (by rwa [symbolsOf_openScope] at *)
  | closing table => exact ⟨ready.unplaced, ready.stored⟩
  | entering table scope unplaced stored =>
    refine ⟨?_, ?_⟩
    · intro symbol member
      -- A symbol that was there before stays, and the new one is as is asked.
      rcases mem_symbolsOf_insert member with before | ⟨_, rfl⟩
      · exact ready.unplaced symbol before
      · exact unplaced
    · intro other outside symbol member
      rcases mem_symbolsOf_insert member with before | ⟨rfl, rfl⟩
      · exact ready.stored other outside symbol before
      · exact stored outside
  | trans _ _ early late => exact late (early ready)

/-- Dropping symbols leaves a table ready. -/
theorem Ready.discard {table : SymbolTable} (ready : table.Ready) (scope : ScopeId) :
    (table.discard scope).Ready := by
  -- No symbol is new, so what held of all of them still does.
  have remains {other : ScopeId} {symbol : Symbol}
      (member : symbol ∈ (table.discard scope).symbolsOf other) :
      symbol ∈ table.symbolsOf other := by
    unfold SymbolTable.discard at member
    rw [symbolsOf_modifySymbols] at member
    split at member
    · cases member
    · exact member
  refine ⟨fun symbol member => ready.unplaced symbol (remains member), ?_⟩
  intro other outside symbol member
  exact ready.stored other outside symbol (remains member)

end SymbolTable

end SmallC
