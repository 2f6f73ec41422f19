import SmallC.Proofs.Tables.Stack

/-! A table of scopes answers like a stack of lists: one step keeps the two in step, and what was
opened last is undone by closing it. -/

namespace SmallC

/-- The first element of a list that satisfies a predicate, by its place. -/
theorem find?_zipIdx {α : Type} (holds : α → Bool) (list : List α) (start : Nat) :
    (list.zipIdx start).find? (fun entry => holds entry.1) =
      (list.findIdx? holds).bind fun place => list[place]?.map (·, start + place) := by
  induction list generalizing start with
  | nil => rfl
  | cons first rest ih =>
    rw [List.zipIdx_cons, List.find?_cons, List.findIdx?_cons]
    cases holds first with
    | true => rfl
    | false =>
      -- Behind the first element every place is one further.
      simp only [ih, Bool.false_eq_true, if_false, Option.bind_map]
      congr 1
      funext place
      simp only [Function.comp_apply, List.getElem?_cons_succ, Nat.add_assoc, Nat.add_comm 1]

/-- Searching and then reading what is found is one search, where what is found can be read. -/
theorem bind_findSome? {α β γ : Type} {search : α → Option β} {read : β → Option γ}
    (readable : ∀ item found, search item = some found → (read found).isSome) (items : List α) :
    (items.findSome? search).bind read = items.findSome? fun item => (search item).bind read := by
  induction items with
  | nil => rfl
  | cons first rest ih =>
    rw [List.findSome?_cons, List.findSome?_cons]
    cases searched : search first with
    | none => exact ih
    | some found =>
      obtain ⟨value, reads⟩ := Option.isSome_iff_exists.mp (readable first found searched)
      simp [reads]

namespace SymbolTable

/-- A table is as it was before requests were made inside a scope that has been closed since. -/
structure Regains (old : SymbolTable) (ops : List TableOp) (new : SymbolTable) : Prop where
  /-- The same scopes are in force. -/
  active : new.active = old.active
  /-- They have what they had, and behind it what has been entered meanwhile. -/
  declarations : ∀ scope ∈ old.active, (new.symbolsOf scope).map Symbol.declaration =
    (old.symbolsOf scope ++ enteredInto scope ops).map Symbol.declaration
  /-- Their symbols are the same, places included, unless they have been given places meanwhile. -/
  symbols : ∀ id symbol, old.symbol? id = some symbol → (∀ offset, .setOffset id offset ∉ ops) →
    new.symbol? id = some symbol
  /-- A name is looked up as before, unless it has been entered meanwhile. -/
  lookup : ∀ name, (∀ scope ∈ old.active, ∀ symbol ∈ enteredInto scope ops, symbol.name ≠ name) →
    new.lookup? name = old.lookup? name

/-- A scope of a table, with its number. -/
def layer (table : SymbolTable) (scope : ScopeId) : Layer := ⟨scope, table.symbolsOf scope⟩

/-- Lists of symbols are those of a table. -/
structure Mirrors (table : SymbolTable) (layers : Layers) : Prop where
  /-- The scopes in force are the lists on the stack. -/
  stack : layers.stack = table.active.map table.layer
  /-- All scopes are there. -/
  all : layers.all.Perm ((List.range table.scopes.length).map table.layer)

variable {table : SymbolTable} {layers : Layers} {scope : ScopeId} {name : String}

/-- What is found in a scope is the first symbol with the name. -/
theorem record?_find? (table : SymbolTable) (scope : ScopeId) (name : String) :
    table.record? (table.find? scope name) = (table.layer scope).first? name := by
  unfold record? find? Layer.first? layer Scope.slotOf? symbol? symbolsOf
  -- A slot is a position, so both searches are one over the symbols of the scope.
  rw [find?_zipIdx (fun symbol : Symbol => decide (symbol.name = name))]
  cases present : table.scopes[scope]? with
  | none => rfl
  | some held =>
    have same : (fun symbol : Symbol => symbol.name == name) =
        fun symbol => decide (symbol.name = name) := by
      funext symbol
      exact beq_eq_decide symbol.name name
    simp only [Option.bind_some, Option.map_some, Option.getD_some, same]
    cases held.symbols.findIdx? fun symbol => decide (symbol.name = name) with
    | none => rfl
    | some slot => simp [present, Function.comp_def]

/-- What is looked up is the first symbol with the name in the innermost scope that has one. -/
theorem record?_lookup? (table : SymbolTable) (name : String) :
    table.record? (table.lookup? name) =
      (table.active.map table.layer).findSome? (·.first? name) := by
  unfold record? lookup?
  rw [bind_findSome?, List.findSome?_map]
  · congr 1
    funext scope
    exact table.record?_find? scope name
  · -- An id that is found is that of a symbol.
    intro scope id found
    obtain ⟨type, declared⟩ := declared_of_find found
    obtain ⟨symbol, known, -⟩ := Option.map_eq_some_iff.mp declared
    rw [known]
    rfl

namespace Mirrors

/-- As many lists have been pushed as scopes have been opened. -/
theorem length (mirrors : table.Mirrors layers) : layers.all.length = table.scopes.length := by
  rw [mirrors.all.length_eq, List.length_map, List.length_range]

/-- The lists are the scopes that have been opened. -/
theorem mem_iff (mirrors : table.Mirrors layers) {layer : Layer} :
    layer ∈ layers.all ↔ ∃ scope < table.scopes.length, table.layer scope = layer := by
  rw [mirrors.all.mem_iff, List.mem_map]
  simp only [List.mem_range]

/-- A scope that is in force has been opened. -/
theorem opened (mirrors : table.Mirrors layers) (active : scope ∈ table.active) :
    scope < table.scopes.length := by
  have stacked : table.layer scope ∈ layers.stack := by
    rw [mirrors.stack]
    exact List.mem_map_of_mem active
  obtain ⟨other, within, same⟩ := mirrors.mem_iff.mp (List.mem_append_left _ stacked)
  have number : other = scope := congrArg Layer.scope same
  exact number ▸ within

/-- A list is found by its number. -/
theorem layer?_eq (mirrors : table.Mirrors layers) (scope : ScopeId) :
    layers.layer? scope =
      if scope < table.scopes.length then some (table.layer scope) else none := by
  unfold Layers.layer?
  split
  · next within =>
    -- There is a list with the number, and any list with the number is that of the scope.
    have present := mirrors.mem_iff.mpr ⟨scope, within, rfl⟩
    cases found : layers.all.find? (·.scope = scope) with
    | none => simpa [layer] using List.find?_eq_none.mp found _ present
    | some layer =>
      obtain ⟨other, -, rfl⟩ := mirrors.mem_iff.mp (List.mem_of_find?_eq_some found)
      have number := List.find?_some found
      rw [decide_eq_true_eq] at number
      rw [← number]
      rfl
  · next beyond =>
    refine List.find?_eq_none.mpr fun layer member => ?_
    obtain ⟨other, within, rfl⟩ := mirrors.mem_iff.mp member
    rw [decide_eq_true_eq]
    rintro rfl
    exact beyond within

/-- The symbols of a scope are those of its list, if there is one. -/
theorem symbols_eq (mirrors : table.Mirrors layers) (scope : ScopeId) :
    ((layers.layer? scope).map Layer.symbols).getD [] = table.symbolsOf scope := by
  rw [mirrors.layer?_eq]
  split
  · rfl
  · next beyond => rw [symbolsOf_absent (Nat.le_of_not_lt beyond)]; rfl

/-- What is changed in one scope is changed in its list. -/
theorem modify (mirrors : table.Mirrors layers) (scope : ScopeId)
    (change : List Symbol → List Symbol) :
    (table.modifySymbols scope change).Mirrors (layers.modify scope change) := by
  -- The one function that changes the lists turns each scope into the changed one.
  have changed {other : ScopeId} (within : other < table.scopes.length) :
      (if (table.layer other).scope = scope then
        { table.layer other with symbols := change (table.layer other).symbols }
      else table.layer other) = (table.modifySymbols scope change).layer other := by
    unfold layer
    rw [symbolsOf_modifySymbols]
    by_cases here : scope = other
    · rw [if_pos here.symm, if_pos ⟨here, within⟩]
    · rw [if_neg (Ne.symm here), if_neg fun both => here both.1]
  have count : (table.modifySymbols scope change).scopes.length = table.scopes.length := by
    simp [modifySymbols]
  refine ⟨?_, ?_⟩
  · unfold Layers.modify
    dsimp only
    rw [mirrors.stack, List.map_map]
    exact List.map_congr_left fun other active => changed (mirrors.opened active)
  · unfold Layers.modify Layers.all
    dsimp only
    rw [← List.map_append, count]
    refine (mirrors.all.map _).trans ?_
    rw [List.map_map]
    exact .of_eq (List.map_congr_left fun other within => changed (List.mem_range.mp within))

/-- A scope is opened by pushing an empty list. -/
theorem openScope (mirrors : table.Mirrors layers) :
    layers.push.1 = table.openScope.1 ∧ table.openScope.2.Mirrors layers.push.2 := by
  have held : table.openScope.2.layer = table.layer := by
    funext scope
    unfold layer
    rw [symbolsOf_openScope]
  have fresh : (⟨layers.all.length, []⟩ : Layer) = table.layer table.scopes.length := by
    unfold layer
    rw [mirrors.length, symbolsOf_absent (Nat.le_refl _)]
  have count : table.openScope.2.scopes.length = table.scopes.length + 1 := List.length_append
  refine ⟨mirrors.length, ?_, ?_⟩
  · unfold Layers.push
    dsimp only
    rw [held, mirrors.stack, fresh]
    rfl
  · unfold Layers.push Layers.all
    dsimp only
    -- The new list is in front here, and the new scope is last there.
    rw [held, count, List.range_succ, List.map_append, List.map_singleton, List.cons_append]
    exact (List.Perm.of_eq (by rw [← fresh]; rfl)).trans
      ((mirrors.all.cons _).trans (List.perm_append_singleton _ _).symm)

/-- A scope is closed by popping its list. -/
theorem closeScope (mirrors : table.Mirrors layers) :
    layers.pop.1 = table.current?.map table.layer ∧
      table.closeScope.2.Mirrors layers.pop.2 := by
  have stack := mirrors.stack
  have all := mirrors.all
  unfold Layers.pop current? SymbolTable.closeScope
  cases held : table.active with
  | nil =>
    rw [held] at stack
    simp only [stack, List.map_nil]
    exact ⟨rfl, stack, all⟩
  | cons scope outer =>
    rw [held] at stack
    unfold Layers.all at all
    rw [stack] at all
    simp only [stack, List.map_cons]
    -- The list that is popped moves behind the others.
    exact ⟨rfl, rfl, List.perm_middle.trans all⟩

/-- Whatever is asked, the answer is the same, and the lists stay those of the table. -/
theorem perform (mirrors : table.Mirrors layers) (op : TableOp) :
    (op.perform table).1 = (op.mimic layers).1 ∧
      (op.perform table).2.Mirrors (op.mimic layers).2 := by
  cases op with
  | openScope => exact ⟨congrArg TableAnswer.opened mirrors.openScope.1.symm, mirrors.openScope.2⟩
  | closeScope => exact ⟨congrArg TableAnswer.closed mirrors.closeScope.1.symm, mirrors.closeScope.2⟩
  | insert scope symbol =>
    refine ⟨?_, mirrors.modify scope (· ++ [symbol])⟩
    unfold TableOp.perform TableOp.mimic
    dsimp only
    rw [mirrors.symbols_eq]
    rfl
  | setOffset id offset => exact ⟨rfl, mirrors.modify id.scope _⟩
  | find scope name =>
    refine ⟨congrArg TableAnswer.found ?_, mirrors⟩
    rw [record?_find?, mirrors.layer?_eq]
    split
    · rfl
    · next beyond =>
      -- A scope that has not been opened has no symbols to be found.
      unfold layer
      rw [symbolsOf_absent (Nat.le_of_not_lt beyond)]
      rfl
  | lookup name =>
    refine ⟨congrArg TableAnswer.found ?_, mirrors⟩
    rw [record?_lookup?, ← mirrors.stack]
    rfl

/-- Any number of requests are answered the same, and the lists stay those of the table. -/
theorem replayed (mirrors : table.Mirrors layers) (ops : List TableOp) :
    (replay TableOp.perform ops table).1 = (replay TableOp.mimic ops layers).1 ∧
      (replay TableOp.perform ops table).2.Mirrors (replay TableOp.mimic ops layers).2 := by
  induction ops generalizing table layers with
  | nil => exact ⟨rfl, mirrors⟩
  | cons op rest ih =>
    obtain ⟨answer, kept⟩ := mirrors.perform op
    obtain ⟨answers, left⟩ := ih kept
    exact ⟨congrArg₂ List.cons answer answers, left⟩

/-- Nothing has been opened or pushed at the start. -/
theorem start : Mirrors {} {} :=
  ⟨rfl, .refl _⟩

end Mirrors

/-- A request adds to the declarations of a scope what it enters into it. -/
theorem declarations_perform (op : TableOp) (present : scope < table.scopes.length) :
    ((op.perform table).2.symbolsOf scope).map Symbol.declaration =
      (table.symbolsOf scope ++ (op.entered? scope).toList).map Symbol.declaration := by
  cases op with
  | openScope =>
    rw [TableOp.perform, symbolsOf_openScope, TableOp.entered?]
    simp
  | insert other symbol =>
    rw [TableOp.perform, insert, symbolsOf_modifySymbols, TableOp.entered?]
    by_cases here : other = scope
    · rw [if_pos ⟨here, present⟩, if_pos here]
      rfl
    · rw [if_neg fun both => here both.1, if_neg here]
      simp
  | setOffset id offset =>
    -- A place is no part of a declaration.
    rw [TableOp.perform, setOffset, symbolsOf_modifySymbols, TableOp.entered?]
    split
    · refine List.ext_getElem? fun slot => ?_
      simp only [List.getElem?_map, List.getElem?_modify, Option.toList_none, List.append_nil]
      cases (table.symbolsOf scope)[slot]? with
      | none => rfl
      | some symbol =>
        simp only [Option.map_eq_map, Option.map_some]
        split <;> rfl
    · simp
  | closeScope | find | lookup => simp [TableOp.perform, TableOp.entered?, closeScope, symbolsOf]

/-- A request leaves a symbol alone, unless it gives the symbol a place. -/
theorem symbol_perform {id : SymbolId} {symbol : Symbol} (known : table.symbol? id = some symbol)
    (op : TableOp) (unplaced : ∀ offset, op ≠ .setOffset id offset) :
    (op.perform table).2.symbol? id = some symbol := by
  unfold symbol? at known ⊢
  cases op with
  | openScope => rw [TableOp.perform, symbolsOf_openScope, known]
  | insert scope other =>
    rw [TableOp.perform, insert, symbolsOf_modifySymbols]
    split
    · -- The new symbol comes after those that were there.
      rw [List.getElem?_append_left (List.getElem?_eq_some_iff.mp known).1, known]
    · exact known
  | setOffset other offset =>
    rw [TableOp.perform, setOffset, symbolsOf_modifySymbols]
    split
    · next here =>
      have elsewhere : other.slot ≠ id.slot := by
        intro slot
        refine unplaced offset (congrArg (TableOp.setOffset · offset) ?_)
        exact SymbolId.mk.injEq .. ▸ ⟨here.1, slot⟩
      rw [List.getElem?_modify, known, Option.map_eq_map, Option.map_some, if_neg elsewhere]
    · exact known
  | closeScope | find | lookup => exact known

/-- No request makes a table forget a scope. -/
theorem length_perform (op : TableOp) : table.scopes.length ≤ (op.perform table).2.scopes.length := by
  cases op with
  | openScope => simp [TableOp.perform, openScope]
  | insert | setOffset => simp [TableOp.perform, insert, setOffset, modifySymbols]
  | closeScope | find | lookup => exact Nat.le_refl _

/-- Requests add to the declarations of a scope what they enter into it, in order. -/
theorem declarations_replay (ops : List TableOp) (present : scope < table.scopes.length) :
    ((replay TableOp.perform ops table).2.symbolsOf scope).map Symbol.declaration =
      (table.symbolsOf scope ++ enteredInto scope ops).map Symbol.declaration := by
  induction ops generalizing table with
  | nil => simp [replay, enteredInto]
  | cons op rest ih =>
    have later := ih (Nat.lt_of_lt_of_le present (length_perform op))
    rw [List.map_append, declarations_perform op present] at later
    refine later.trans ?_
    unfold enteredInto
    rw [List.filterMap_cons]
    cases op.entered? scope <;> simp

/-- Requests leave a symbol alone, unless one of them gives it a place. -/
theorem symbol_replay {id : SymbolId} {symbol : Symbol} (known : table.symbol? id = some symbol)
    (ops : List TableOp) (unplaced : ∀ offset, .setOffset id offset ∉ ops) :
    (replay TableOp.perform ops table).2.symbol? id = some symbol := by
  induction ops generalizing table with
  | nil => exact known
  | cons op rest ih =>
    refine ih (symbol_perform known op fun offset same => ?_) fun offset member => ?_
    · exact unplaced offset (same ▸ List.mem_cons_self)
    · exact unplaced offset (List.mem_cons_of_mem _ member)

/-- A name is found as before in a scope that has since had other names entered. -/
theorem find?_behind {old new : SymbolTable} {entered : List Symbol}
    (declarations : (new.symbolsOf scope).map Symbol.declaration =
      (old.symbolsOf scope ++ entered).map Symbol.declaration)
    (absent : ∀ symbol ∈ entered, symbol.name ≠ name) :
    new.find? scope name = old.find? scope name := by
  have names : new.namesOf scope = old.namesOf scope ++ entered.map Symbol.name := by
    have firsts := congrArg (List.map Prod.fst) declarations
    rw [List.map_map, List.map_map, List.map_append] at firsts
    exact firsts
  have missing : (entered.map Symbol.name).findIdx? (· == name) = none := by
    simpa using absent
  -- The later names are searched last, and none of them is the one.
  rw [find?_eq, find?_eq]
  unfold Level.find? List.idxOf?
  rw [names, List.findIdx?_append, missing, Option.map_none, Option.or_none]

/-- The scopes in force are as before once the scope that was opened is closed. -/
theorem Linked.active_closeScope (linked : table.Linked) (ops : List TableOp)
    (back : (replay TableOp.perform ops table.openScope.2).2.current? = some table.openScope.1) :
    (replay TableOp.perform ops table.openScope.2).2.closeScope.2.active = table.active := by
  -- The link of the scope that was opened leads to the scope in force before.
  have opened : table.openScope.2.enclosing? table.openScope.1 = some table.current? :=
    (table.enclosing_openScope _).trans (if_pos rfl)
  have link := enclosing_replay ops opened
  have chain := ((linked.perform .openScope).replayed ops).chain
  rw [TableOp.perform, back] at chain
  have outward : (replay TableOp.perform ops table.openScope.2).2.Chain table.current?
      table.active := by
    refine linked.chain.mono fun scope outer leads => ?_
    exact enclosing_replay ops (enclosing_perform .openScope leads)
  exact congrArg List.tail (chain.unique (.link link outward))

/-- What is asked for inside a scope is undone by closing it, except for what is entered around it. -/
theorem Linked.regains (linked : table.Linked) (ops : List TableOp)
    (back : (replay TableOp.perform ops table.openScope.2).2.current? = some table.openScope.1) :
    table.Regains ops (replay TableOp.perform ops table.openScope.2).2.closeScope.2 := by
  have active := linked.active_closeScope ops back
  have declarations : ∀ scope ∈ table.active,
      ((replay TableOp.perform ops table.openScope.2).2.closeScope.2.symbolsOf scope).map
          Symbol.declaration =
        (table.symbolsOf scope ++ enteredInto scope ops).map Symbol.declaration := by
    intro scope member
    have grown : table.scopes.length ≤ table.openScope.2.scopes.length := length_perform .openScope
    have present := Nat.lt_of_lt_of_le (linked.chain.opened scope member) grown
    have later := declarations_replay ops present
    rwa [symbolsOf_openScope] at later
  refine ⟨active, declarations, ?_, ?_⟩
  · intro id symbol known unplaced
    exact symbol_replay (symbol_perform known .openScope (by simp)) ops unplaced
  · intro name absent
    -- Scope by scope, what has been entered does not have the name.
    have found := List.map_congr_left fun scope member =>
      find?_behind (declarations scope member) (absent scope member)
    have first := congrArg (List.findSome? id) found
    rw [List.findSome?_map, List.findSome?_map] at first
    rw [lookup?, lookup?, active]
    exact first

end SymbolTable

/-- A table that requests are made of, from the start on, answers like lists that are pushed and
popped, its links go down the stack, and closing a scope undoes what was done since it was opened. -/
theorem replay_refines (ops : List TableOp) :
    (replay TableOp.perform ops {}).1 = (replay TableOp.mimic ops {}).1 ∧
      (replay TableOp.perform ops {}).2.Linked ∧
      ∀ inside : List TableOp,
        let opened := (replay TableOp.perform ops {}).2.openScope
        let reached := (replay TableOp.perform inside opened.2).2
        reached.current? = some opened.1 →
          (replay TableOp.perform ops {}).2.Regains inside reached.closeScope.2 := by
  have linked := SymbolTable.linked_start.replayed ops
  exact ⟨(SymbolTable.Mirrors.start.replayed ops).1, linked, linked.regains⟩

/-- A name is hidden inside a scope, and what is declared around it meanwhile stays. -/
theorem replay_refines_hidden :
    let table := (replay TableOp.perform [.openScope, .insert 0 ⟨"a", .int, 0⟩] {}).2
    let inside : List TableOp :=
      [.insert 1 ⟨"a", .double, 0⟩, .insert 0 ⟨"b", .int, 0⟩, .openScope, .closeScope]
    let reached := (replay TableOp.perform inside table.openScope.2).2
    (reached.lookup? "a" = some ⟨1, 0⟩ ∧ table.Regains inside reached.closeScope.2) ∧
      reached.closeScope.2.lookup? "a" = some ⟨0, 0⟩ ∧
      reached.closeScope.2.lookup? "b" = some ⟨0, 1⟩ := by
  refine ⟨⟨by cbv, ?_⟩, by cbv, by cbv⟩
  exact (replay_refines [.openScope, .insert 0 ⟨"a", .int, 0⟩]).2.2 _ (by cbv)

end SmallC
