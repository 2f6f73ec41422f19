import SmallC.Program.Ty

/-! Symbols and their scopes: every scope of a unit is kept, and a stack says which are in force. -/

namespace SmallC

/-- A declared name. -/
structure Symbol where
  /-- The name as it is spelled. -/
  name : String
  /-- The type of its first declaration. -/
  type : Ty
  /-- Its place in the frame of its function, or zero for storage of the unit. -/
  offset : Int := 0
  deriving Inhabited

/-- Scopes are numbered in the order in which they are opened. -/
abbrev ScopeId := Nat

/-- A symbol is known by its scope and by its slot there. -/
structure SymbolId where
  /-- The scope that owns the symbol. -/
  scope : ScopeId
  /-- Its place among the symbols of the scope, in the order of declaration. -/
  slot : Nat
  deriving DecidableEq, Repr, Inhabited

/-- One scope and its symbols in the order of declaration. -/
structure Scope where
  /-- The scope in force when this one was opened. -/
  enclosing : Option ScopeId
  /-- The symbols declared so far. -/
  symbols : List Symbol := []
  deriving Inhabited

/-- Every scope ever opened, and those in force with the innermost first. -/
structure SymbolTable where
  /-- The scopes by number. -/
  scopes : List Scope := []
  /-- The scopes in force. -/
  active : List ScopeId := []
  deriving Inhabited

/-- The slot of the first symbol with the name. -/
def Scope.slotOf? (scope : Scope) (name : String) : Option Nat :=
  scope.symbols.findIdx? fun symbol => symbol.name == name

namespace SymbolTable

/-- The innermost scope in force. -/
def current? (table : SymbolTable) : Option ScopeId :=
  table.active.head?

/-- The scope that was opened first. -/
def outermost? (table : SymbolTable) : Option ScopeId :=
  -- Scopes keep their numbers, so the first one is always number zero.
  if table.scopes.isEmpty then none else some 0

/-- The symbols of a scope. -/
def symbolsOf (table : SymbolTable) (scope : ScopeId) : List Symbol :=
  (table.scopes[scope]?.map Scope.symbols).getD []

/-- The table with the symbols of one scope changed. -/
def modifySymbols (table : SymbolTable) (scope : ScopeId) (change : List Symbol → List Symbol) :
    SymbolTable :=
  { table with
    scopes := table.scopes.modify scope fun old => { old with symbols := change old.symbols } }

/-- Open a scope inside the current one. -/
def openScope (table : SymbolTable) : ScopeId × SymbolTable :=
  -- The next number is the count of the scopes so far.
  let scope := table.scopes.length
  (scope, ⟨table.scopes ++ [{ enclosing := table.current? }], scope :: table.active⟩)

/-- Close the current scope, whose symbols stay in the table. -/
def closeScope (table : SymbolTable) : Option ScopeId × SymbolTable :=
  (table.current?, { table with active := table.active.tail })

/-- Drop the symbols of a scope. -/
def discard (table : SymbolTable) (scope : ScopeId) : SymbolTable :=
  -- The scope itself keeps its number.
  table.modifySymbols scope fun _ => []

/-- Enter a symbol into a scope, after those it holds. -/
def insert (table : SymbolTable) (scope : ScopeId) (symbol : Symbol) : SymbolId × SymbolTable :=
  -- No slot moves, so ids given out before stay good.
  (⟨scope, (table.symbolsOf scope).length⟩, table.modifySymbols scope (· ++ [symbol]))

/-- The first symbol of a scope with the name. -/
def find? (table : SymbolTable) (scope : ScopeId) (name : String) : Option SymbolId :=
  (table.scopes[scope]?.bind (·.slotOf? name)).map (⟨scope, ·⟩)

/-- The symbol with the name in the innermost scope in force that has one. -/
def lookup? (table : SymbolTable) (name : String) : Option SymbolId :=
  -- Inner scopes come first and hide the names of outer ones.
  table.active.findSome? fun scope => table.find? scope name

/-- The symbol with the given id. -/
def symbol? (table : SymbolTable) (id : SymbolId) : Option Symbol :=
  (table.symbolsOf id.scope)[id.slot]?

/-- The name of a symbol, empty for an id that names none. -/
def nameOf (table : SymbolTable) (id : SymbolId) : String :=
  ((table.symbol? id).map Symbol.name).getD ""

/-- The type of a symbol, the error type for an id that names none. -/
def typeOf (table : SymbolTable) (id : SymbolId) : Ty :=
  ((table.symbol? id).map Symbol.type).getD .error

/-- The offset of a symbol, zero for an id that names none. -/
def offsetOf (table : SymbolTable) (id : SymbolId) : Int :=
  ((table.symbol? id).map Symbol.offset).getD 0

/-- Give a symbol its place in a frame. -/
def setOffset (table : SymbolTable) (id : SymbolId) (offset : Int) : SymbolTable :=
  table.modifySymbols id.scope (·.modify id.slot fun symbol => { symbol with offset })

/-- The ids of a scope's symbols in the order of declaration. -/
def ids (table : SymbolTable) (scope : ScopeId) : List SymbolId :=
  (List.range (table.symbolsOf scope).length).map (⟨scope, ·⟩)

end SymbolTable

end SmallC
