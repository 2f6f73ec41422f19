import SmallC.Proofs.Scoping.Checking

/-! What a check may do to a table of scopes, and what every such step keeps: names are declared once
in each scope, and declarations stay. -/

namespace SmallC

namespace SymbolTable

/-- One step of checking, with the scope that it closes and the scope that it empties, if any. -/
inductive Step (table : SymbolTable) :
    (closed? : Option ScopeId) → (emptied? : Option ScopeId) → SymbolTable → Prop where
  /-- Nothing is done. -/
  | stays : Step table none none table
  /-- A scope is opened. -/
  | opens : Step table none none table.openScope.2
  /-- The current scope is closed. -/
  | closes {scope : ScopeId} (current : table.current? = some scope) :
    Step table (some scope) none table.closeScope.2
  /-- The current scope is closed, and its symbols are dropped. -/
  | empties {scope : ScopeId} (current : table.current? = some scope) :
    Step table (some scope) (some scope) (table.closeScope.2.discard scope)
  /-- A name that a scope in force does not have is entered there. -/
  | enters {scope : ScopeId} {symbol : Symbol} (active : scope ∈ table.active)
    (fresh : table.find? scope symbol.name = none) :
    Step table none none (table.insert scope symbol).2

/-- A table in which scopes lie inside each other and names are declared once. -/
structure Tidy (table : SymbolTable) : Prop where
  /-- The scopes in force lie inside each other, down to that of the unit. -/
  proper : table.scoping.Proper
  /-- No scope has a name twice. -/
  distinct : ∀ scope, (table.namesOf scope).Nodup

variable {table new : SymbolTable} {closed? emptied? : Option ScopeId} {scope : ScopeId}
  {name : String}

/-- The names of a scope after a change to the symbols of one scope. -/
theorem namesOf_modifySymbols (table : SymbolTable) (scope other : ScopeId)
    (change : List Symbol → List Symbol) :
    (table.modifySymbols scope change).namesOf other =
      if scope = other ∧ other < table.scopes.length then
        (change (table.symbolsOf other)).map Symbol.name
      else table.namesOf other := by
  unfold namesOf
  rw [symbolsOf_modifySymbols]
  split <;> rfl

@[simp] theorem namesOf_openScope (table : SymbolTable) (scope : ScopeId) :
    table.openScope.2.namesOf scope = table.namesOf scope := by
  unfold namesOf
  rw [symbolsOf_openScope]

/-- A symbol is known by its name and its scope. -/
theorem Tidy.unique (tidy : table.Tidy) {first second : SymbolId} {type other : Ty}
    (known : table.declared? first = some (name, type))
    (found : table.declared? second = some (name, other)) (same : first.scope = second.scope) :
    first = second := by
  -- Both slots hold the one occurrence of the name.
  have spelled {symbol : SymbolId} {declared : Ty}
      (here : table.declared? symbol = some (name, declared)) :
      (table.namesOf symbol.scope)[symbol.slot]? = some name := by
    rw [declared_eq_getElem] at here
    have firsts := congrArg (Option.map Prod.fst) here
    rwa [← List.getElem?_map, List.map_map] at firsts
  have one := spelled known
  have two := spelled found
  rw [← same] at two
  obtain ⟨within, -⟩ := List.getElem?_eq_some_iff.mp one
  have slots := (List.getElem?_inj within (tidy.distinct first.scope)).mp (one.trans two.symm)
  obtain ⟨scope, slot⟩ := first
  obtain ⟨other, further⟩ := second
  exact congrArg₂ SymbolId.mk same slots

/-- A declared symbol is what its name stands for in its scope. -/
theorem Tidy.find?_eq (tidy : table.Tidy) {symbol : SymbolId} {type : Ty}
    (known : table.declared? symbol = some (name, type)) :
    table.find? symbol.scope name = some symbol := by
  have present : name ∈ table.namesOf symbol.scope := by
    rw [declared_eq_getElem] at known
    have member := List.mem_map_of_mem (f := Prod.fst) (List.mem_of_getElem? known)
    rwa [List.map_map] at member
  -- The name is there, so something is found, and a scope declares a name once.
  cases found : table.find? symbol.scope name with
  | none => exact absurd present (find?_eq_none.mp found)
  | some other =>
    obtain ⟨declared, here⟩ := declared_of_find found
    have outer : other.scope = symbol.scope := by
      obtain ⟨slot, -, rfl⟩ := Option.map_eq_some_iff.mp found
      rfl
    rw [tidy.unique here known outer]

/-- Scopes that are in force have been opened. -/
theorem Tidy.opened (tidy : table.Tidy) (active : scope ∈ table.active) :
    scope < table.scopes.length :=
  tidy.proper.opened scope (by rwa [scopes_scoping])

/-- The scope that is current is in force no more once it is closed. -/
theorem Tidy.not_mem_closeScope (tidy : table.Tidy) (current : table.current? = some scope) :
    scope ∉ table.closeScope.2.active := by
  have ordered := tidy.proper.ordered
  rw [scopes_scoping] at ordered
  obtain ⟨outer, held⟩ : ∃ outer, table.active = scope :: outer :=
    List.head?_eq_some_iff.mp current
  unfold closeScope
  rw [held] at ordered ⊢
  -- All others were opened before it.
  exact fun member => Nat.lt_irrefl _ ((List.pairwise_cons.mp ordered).1 scope member)

namespace Step

/-- A table stays tidy as long as the scope of the unit is not closed. -/
theorem tidy (step : table.Step closed? emptied? new) (tidy : table.Tidy)
    (inside : closed? ≠ some unitScope) : new.Tidy := by
  -- What is left when an inner scope is closed still has that of the unit around it.
  have leaves {scope : ScopeId} (current : table.current? = some scope)
      (inner : scope ≠ unitScope) : table.closeScope.2.scoping.Proper := by
    obtain ⟨outer, held⟩ : ∃ outer, table.active = scope :: outer :=
      List.head?_eq_some_iff.mp current
    rw [scoping_closeScope]
    have scopes : table.scoping.leave.scopes = outer := by
      rw [← scoping_closeScope, scopes_scoping]
      exact congrArg List.tail held
    have proper := tidy.proper
    obtain ⟨ordered, opened, between, rooted⟩ := proper
    rw [scopes_scoping, held] at ordered opened rooted
    refine ⟨?_, ?_, ?_⟩
    · exact scopes ▸ (List.pairwise_cons.mp ordered).2
    · exact scopes ▸ fun other member => opened other (List.mem_cons_of_mem _ member)
    · rw [scopes]
      cases between with
      | nil => exact absurd (List.cons.inj rooted).1 inner
      | cons first between => exact ⟨between, (List.cons.inj rooted).2⟩
  cases step with
  | stays => exact tidy
  | opens =>
    refine ⟨?_, fun scope => ?_⟩
    · rw [scoping_openScope]
      exact tidy.proper.enter
    · rw [namesOf_openScope]
      exact tidy.distinct scope
  | closes current =>
    exact ⟨leaves current fun same => inside (congrArg some same), tidy.distinct⟩
  | @empties scope current =>
    refine ⟨?_, fun other => ?_⟩
    · rw [scoping_discard (tidy.not_mem_closeScope current)]
      exact leaves current fun same => inside (congrArg some same)
    · rw [discard, namesOf_modifySymbols]
      split
      · exact List.nodup_nil
      · exact tidy.distinct other
  | @enters scope symbol active fresh =>
    refine ⟨?_, fun other => ?_⟩
    · rw [scoping_insert (tidy.opened active) fresh]
      exact tidy.proper.returns (Scoping.returns_declareIn _ _ _)
    · rw [insert, namesOf_modifySymbols]
      split
      · next here =>
        -- The one name that is added was not there.
        have longer := (tidy.distinct scope).concat (find?_eq_none.mp fresh)
        rw [List.concat_eq_append] at longer
        rw [List.map_append, ← here.1]
        exact longer
      · exact tidy.distinct other

/-- A declaration stays as long as its scope is not emptied. -/
theorem declared (step : table.Step closed? emptied? new) {symbol : SymbolId}
    {declaration : String × Ty} (known : table.declared? symbol = some declaration)
    (kept : emptied? ≠ some symbol.scope) : new.declared? symbol = some declaration := by
  cases step with
  | stays => exact known
  | opens => exact table.keeps_openScope _ _ known
  | closes => exact known
  | @empties scope current =>
    rw [declared_eq_getElem] at known ⊢
    rw [discard, symbolsOf_modifySymbols, if_neg fun here => kept (congrArg some here.1)]
    exact known
  | @enters scope symbol => exact table.keeps_insert scope symbol _ _ known

/-- A scope stays in force until it is closed. -/
theorem active (step : table.Step closed? emptied? new) (present : scope ∈ table.active)
    (stays : closed? ≠ some scope) : scope ∈ new.active := by
  -- Only the current scope is ever taken away.
  have remains {other : ScopeId} (current : table.current? = some other)
      (differs : some other ≠ some scope) : scope ∈ table.active.tail := by
    obtain ⟨outer, held⟩ : ∃ outer, table.active = other :: outer :=
      List.head?_eq_some_iff.mp current
    rw [held] at present ⊢
    exact (List.mem_cons.mp present).resolve_left fun same => differs (congrArg some same.symm)
  cases step with
  | stays => exact present
  | opens => exact List.mem_cons_of_mem _ present
  | closes current => exact remains current stays
  | empties current => exact remains current stays
  | enters => exact present

end Step

end SymbolTable

end SmallC
