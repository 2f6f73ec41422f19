import SmallC.Proofs.Scoping.Tables

/-! The table of scopes is a stack: whatever is asked of it, it answers like lists of symbols that are
pushed and popped, and the links from each scope to the one around it lead down that stack. -/

namespace SmallC

/-- What may be asked of a table of scopes. -/
inductive TableOp where
  /-- Open a scope inside the current one. -/
  | openScope
  /-- Close the current scope, if there is one. -/
  | closeScope
  /-- Enter a symbol into a scope. -/
  | insert (scope : ScopeId) (symbol : Symbol)
  /-- Give a symbol its place in a frame. -/
  | setOffset (id : SymbolId) (offset : Int)
  /-- Find a name in one scope. -/
  | find (scope : ScopeId) (name : String)
  /-- Look a name up in all scopes in force. -/
  | lookup (name : String)

/-- A list of symbols, and the number it was pushed under. -/
structure Layer where
  /-- How many lists had been pushed before. -/
  scope : ScopeId
  /-- The symbols in the order in which they were entered. -/
  symbols : List Symbol
  deriving Inhabited

/-- What is answered to a request. -/
inductive TableAnswer where
  /-- The number of the scope that was opened. -/
  | opened (scope : ScopeId)
  /-- The scope that was closed, with its symbols. -/
  | closed (layer? : Option Layer)
  /-- The id of the symbol that was entered. -/
  | inserted (id : SymbolId)
  /-- A place was given. -/
  | placed
  /-- The symbol that was found, under its id. -/
  | found (record? : Option (SymbolId × Symbol))

/-- The first symbol of a list with the name, under its id. -/
def Layer.first? (layer : Layer) (name : String) : Option (SymbolId × Symbol) :=
  (layer.symbols.zipIdx.find? (·.1.name = name)).map fun entry =>
    (⟨layer.scope, entry.2⟩, entry.1)

/-- Lists of symbols: those on the stack with the last one pushed on top, and those popped from it. -/
structure Layers where
  /-- The lists on the stack. -/
  stack : List Layer := []
  /-- The lists that have been popped, which are searched no more. -/
  popped : List Layer := []

namespace Layers

/-- All lists, be they on the stack or not. -/
def all (layers : Layers) : List Layer := layers.stack ++ layers.popped

/-- Push an empty list. -/
def push (layers : Layers) : ScopeId × Layers :=
  let scope := layers.all.length
  (scope, { layers with stack := ⟨scope, []⟩ :: layers.stack })

/-- Pop the list on top, if there is one. -/
def pop (layers : Layers) : Option Layer × Layers :=
  match layers.stack with
  | [] => (none, layers)
  | top :: below => (some top, ⟨below, top :: layers.popped⟩)

/-- The list with the number. -/
def layer? (layers : Layers) (scope : ScopeId) : Option Layer :=
  layers.all.find? (·.scope = scope)

/-- Change the symbols of the list with the number. -/
def modify (layers : Layers) (scope : ScopeId) (change : List Symbol → List Symbol) : Layers :=
  let changed (layer : Layer) : Layer :=
    if layer.scope = scope then { layer with symbols := change layer.symbols } else layer
  ⟨layers.stack.map changed, layers.popped.map changed⟩

/-- The first symbol with the name in the topmost list that has one. -/
def lookup? (layers : Layers) (name : String) : Option (SymbolId × Symbol) :=
  layers.stack.findSome? (·.first? name)

end Layers

/-- An id that a table has found, with its symbol. -/
def SymbolTable.record? (table : SymbolTable) (found : Option SymbolId) :
    Option (SymbolId × Symbol) :=
  found.bind fun id => (table.symbol? id).map (id, ·)

namespace TableOp

/-- What a table answers, and what becomes of it. -/
def perform : TableOp → SymbolTable → TableAnswer × SymbolTable
  | .openScope, table =>
    let opened := table.openScope
    (.opened opened.1, opened.2)
  | .closeScope, table =>
    let closed := table.closeScope
    (.closed (closed.1.map fun scope => ⟨scope, closed.2.symbolsOf scope⟩), closed.2)
  | .insert scope symbol, table =>
    let entered := table.insert scope symbol
    (.inserted entered.1, entered.2)
  | .setOffset id offset, table => (.placed, table.setOffset id offset)
  | .find scope name, table => (.found (table.record? (table.find? scope name)), table)
  | .lookup name, table => (.found (table.record? (table.lookup? name)), table)

/-- What lists of symbols answer, and what becomes of them. -/
def mimic : TableOp → Layers → TableAnswer × Layers
  | .openScope, layers =>
    let pushed := layers.push
    (.opened pushed.1, pushed.2)
  | .closeScope, layers =>
    let popped := layers.pop
    (.closed popped.1, popped.2)
  | .insert scope symbol, layers =>
    let held := ((layers.layer? scope).map Layer.symbols).getD []
    (.inserted ⟨scope, held.length⟩, layers.modify scope (· ++ [symbol]))
  | .setOffset id offset, layers =>
    (.placed, layers.modify id.scope (·.modify id.slot fun symbol => { symbol with offset }))
  | .find scope name, layers => (.found ((layers.layer? scope).bind (·.first? name)), layers)
  | .lookup name, layers => (.found (layers.lookup? name), layers)

/-- The symbol that is entered into a scope. -/
def entered? (scope : ScopeId) : TableOp → Option Symbol
  | .insert other symbol => if other = scope then some symbol else none
  | .openScope | .closeScope | .setOffset .. | .find .. | .lookup _ => none

end TableOp

/-- Make requests one after the other: what is answered to each, and what is left behind. -/
def replay {σ : Type} (step : TableOp → σ → TableAnswer × σ) :
    List TableOp → σ → List TableAnswer × σ
  | [], state => ([], state)
  | first :: rest, state =>
    let done := step first state
    let others := replay step rest done.2
    (done.1 :: others.1, others.2)

/-- The symbols that requests enter into a scope, in order. -/
def enteredInto (scope : ScopeId) (ops : List TableOp) : List Symbol :=
  ops.filterMap (·.entered? scope)

namespace SymbolTable

/-- The link of a scope to the one around it, for a scope that has been opened. -/
def enclosing? (table : SymbolTable) (scope : ScopeId) : Option (Option ScopeId) :=
  table.scopes[scope]?.map Scope.enclosing

/-- The links lead from a scope outward through the scopes of a list, and end there. -/
inductive Chain (table : SymbolTable) : Option ScopeId → List ScopeId → Prop where
  /-- There is no scope left. -/
  | ends : Chain table none []
  /-- The link of a scope leads on. -/
  | link {scope : ScopeId} {next : Option ScopeId} {outer : List ScopeId}
    (linked : table.enclosing? scope = some next) (onward : Chain table next outer) :
    Chain table (some scope) (scope :: outer)

/-- A search for a name that goes outward link by link, and what it ends with. -/
inductive Search (table : SymbolTable) (name : String) :
    Option ScopeId → Option SymbolId → Prop where
  /-- No scope is left. -/
  | outside : Search table name none none
  /-- The scope has the name. -/
  | here {scope : ScopeId} {id : SymbolId} (found : table.find? scope name = some id) :
    Search table name (some scope) (some id)
  /-- The scope does not have the name, and the one around it is searched. -/
  | outward {scope : ScopeId} {next : Option ScopeId} {answer : Option SymbolId}
    (absent : table.find? scope name = none) (linked : table.enclosing? scope = some next)
    (onward : Search table name next answer) : Search table name (some scope) answer

/-- The links of a table go down its stack. -/
structure Linked (table : SymbolTable) : Prop where
  /-- A link leads to a scope that was opened before. -/
  older : ∀ scope outer, table.enclosing? scope = some (some outer) → outer < scope
  /-- The scopes in force are those that the links lead through from the current one on. -/
  chain : table.Chain table.current? table.active
  /-- Closing a scope goes back to where its link leads. -/
  back : ∀ scope, table.current? = some scope →
    table.enclosing? scope = some table.closeScope.2.current?
  /-- A search along the links ends, always with what is looked up. -/
  search : ∀ name answer, table.Search name table.current? answer ↔ answer = table.lookup? name

section Links

variable {old new table : SymbolTable}

@[simp] theorem enclosing_modifySymbols (table : SymbolTable) (scope other : ScopeId)
    (change : List Symbol → List Symbol) :
    (table.modifySymbols scope change).enclosing? other = table.enclosing? other := by
  unfold enclosing? modifySymbols
  rw [List.getElem?_modify]
  cases table.scopes[other]? with
  | none => rfl
  | some held =>
    simp only [Option.map_some]
    split <;> rfl

/-- A scope that has a link has been opened. -/
theorem lt_of_enclosing {scope : ScopeId} {outer : Option ScopeId}
    (linked : table.enclosing? scope = some outer) : scope < table.scopes.length := by
  obtain ⟨held, present, -⟩ := Option.map_eq_some_iff.mp linked
  exact (List.getElem?_eq_some_iff.mp present).1

/-- A scope that is opened is linked to the current one, and no other link changes. -/
theorem enclosing_openScope (table : SymbolTable) (scope : ScopeId) :
    table.openScope.2.enclosing? scope =
      if scope = table.scopes.length then some table.current? else table.enclosing? scope := by
  unfold enclosing? openScope
  dsimp only
  rcases Nat.lt_trichotomy scope table.scopes.length with below | rfl | above
  · rw [List.getElem?_append_left below, if_neg (Nat.ne_of_lt below)]
  · simp
  · rw [if_neg (Nat.ne_of_gt above), List.getElem?_eq_none (by simp; omega),
      List.getElem?_eq_none (Nat.le_of_lt above)]

/-- Links are never changed. -/
theorem enclosing_perform (op : TableOp) {scope : ScopeId} {outer : Option ScopeId}
    (linked : table.enclosing? scope = some outer) :
    (op.perform table).2.enclosing? scope = some outer := by
  cases op with
  | openScope =>
    have opened := Nat.ne_of_lt (lt_of_enclosing linked)
    exact (table.enclosing_openScope scope).trans ((if_neg opened).trans linked)
  | insert other symbol => exact (table.enclosing_modifySymbols other scope _).trans linked
  | setOffset id offset => exact (table.enclosing_modifySymbols id.scope scope _).trans linked
  | closeScope | find | lookup => exact linked

/-- Where links stay, they lead through the same scopes. -/
theorem Chain.mono {from? : Option ScopeId} {scopes : List ScopeId}
    (chain : old.Chain from? scopes)
    (stay : ∀ scope outer, old.enclosing? scope = some outer → new.enclosing? scope = some outer) :
    new.Chain from? scopes := by
  induction chain with
  | ends => exact .ends
  | link linked _ ih => exact .link (stay _ _ linked) ih

/-- Links lead through one list of scopes only. -/
theorem Chain.unique {from? : Option ScopeId} {scopes others : List ScopeId}
    (chain : table.Chain from? scopes) (other : table.Chain from? others) : scopes = others := by
  induction chain generalizing others with
  | ends =>
    cases other
    rfl
  | link linked _ ih =>
    obtain _ | ⟨again, onward⟩ := other
    rw [linked] at again
    cases again
    rw [ih onward]

/-- The scopes that links lead through have been opened. -/
theorem Chain.opened {from? : Option ScopeId} {scopes : List ScopeId}
    (chain : table.Chain from? scopes) : ∀ scope ∈ scopes, scope < table.scopes.length := by
  induction chain with
  | ends => simp
  | link linked _ ih => exact List.forall_mem_cons.mpr ⟨lt_of_enclosing linked, ih⟩

/-- Links start at the first scope that they lead through. -/
theorem Chain.head?_eq {from? : Option ScopeId} {scopes : List ScopeId}
    (chain : table.Chain from? scopes) : scopes.head? = from? := by
  cases chain <;> rfl

/-- A search goes through the scopes that the links lead through. -/
theorem Chain.search {from? : Option ScopeId} {scopes : List ScopeId}
    (chain : table.Chain from? scopes) (name : String) :
    table.Search name from? (scopes.findSome? (table.find? · name)) := by
  induction chain with
  | ends => exact .outside
  | @link scope next outer linked _ ih =>
    rw [List.findSome?_cons]
    cases found : table.find? scope name with
    | some id => exact .here found
    | none => exact .outward found linked ih

/-- A search ends in one way only. -/
theorem Search.unique {from? : Option ScopeId} {name : String} {answer other : Option SymbolId}
    (search : table.Search name from? answer) (again : table.Search name from? other) :
    answer = other := by
  induction search generalizing other with
  | outside =>
    cases again
    rfl
  | here found =>
    cases again with
    | here also => exact found.symm.trans also
    | outward absent => rw [found] at absent; cases absent
  | outward absent linked _ ih =>
    cases again with
    | here found => rw [absent] at found; cases found
    | outward _ also onward =>
      rw [linked] at also
      cases also
      exact ih onward

/-- Links that go down the stack to older scopes are all that matters. -/
theorem linked_of_chain (older : ∀ scope outer, table.enclosing? scope = some (some outer) →
    outer < scope) (chain : table.Chain table.current? table.active) : table.Linked where
  older := older
  chain := chain
  back := by
    intro scope current
    generalize held : table.active = active at chain
    unfold current? at current chain
    rw [current] at chain
    obtain _ | ⟨linked, onward⟩ := chain
    -- What is left of the stack is what the link leads through.
    rw [linked, ← onward.head?_eq]
    unfold current? closeScope
    rw [held]
    rfl
  search := by
    intro name answer
    have found := chain.search name
    refine ⟨fun search => search.unique found, ?_⟩
    rintro rfl
    exact found

/-- Every request leaves the links in order. -/
theorem Linked.perform (linked : table.Linked) (op : TableOp) : (op.perform table).2.Linked := by
  cases op with
  | openScope =>
    refine linked_of_chain (fun scope outer leads => ?_) ?_
    · rw [TableOp.perform, enclosing_openScope] at leads
      split at leads
      · next here =>
        -- The new scope is linked to the current one, which is among those opened before.
        rw [here]
        exact linked.chain.opened outer (List.mem_of_mem_head? (Option.some.inj leads))
      · exact linked.older scope outer leads
    · have link : table.openScope.2.enclosing? table.openScope.1 = some table.current? :=
        (table.enclosing_openScope _).trans (if_pos rfl)
      exact .link link (linked.chain.mono fun scope outer leads =>
        enclosing_perform .openScope leads)
  | closeScope =>
    refine linked_of_chain linked.older ?_
    -- What is left in force is the rest of the chain, which starts where the first link leads.
    have rest : table.Chain table.active.tail.head? table.active.tail := by
      have chain := linked.chain
      unfold current? at chain
      cases held : table.active with
      | nil => exact .ends
      | cons scope outer =>
        rw [held] at chain
        obtain _ | ⟨-, onward⟩ := chain
        exact onward.head?_eq.symm ▸ onward
    exact rest.mono fun scope outer leads => leads
  | insert scope symbol =>
    refine linked_of_chain (fun other outer leads => ?_) (linked.chain.mono fun other outer leads => ?_)
    · exact linked.older other outer ((table.enclosing_modifySymbols scope other _).symm.trans leads)
    · exact enclosing_perform (.insert scope symbol) leads
  | setOffset id offset =>
    refine linked_of_chain (fun other outer leads => ?_) (linked.chain.mono fun other outer leads => ?_)
    · exact linked.older other outer
        ((table.enclosing_modifySymbols id.scope other _).symm.trans leads)
    · exact enclosing_perform (.setOffset id offset) leads
  | find | lookup => exact linked

/-- Any number of requests leave the links in order. -/
theorem Linked.replayed (linked : table.Linked) (ops : List TableOp) :
    (replay TableOp.perform ops table).2.Linked := by
  induction ops generalizing table with
  | nil => exact linked
  | cons op rest ih => exact ih (linked.perform op)

/-- Links stay through any number of requests. -/
theorem enclosing_replay (ops : List TableOp) {scope : ScopeId} {outer : Option ScopeId}
    (linked : table.enclosing? scope = some outer) :
    (replay TableOp.perform ops table).2.enclosing? scope = some outer := by
  induction ops generalizing table with
  | nil => exact linked
  | cons op rest ih => exact ih (enclosing_perform op linked)

/-- Nothing is linked before anything is opened. -/
theorem linked_start : Linked {} :=
  linked_of_chain (fun _ _ leads => nomatch leads) .ends

end Links

end SymbolTable

end SmallC
