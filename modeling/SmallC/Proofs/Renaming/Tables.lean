import Mathlib.Data.Set.Function
import SmallC.Lowering.Frame
import SmallC.Proofs.Program.Declarations
import SmallC.Proofs.Program.Mapped

/-! Renamed tables: while different names stay different, every name finds the symbol it found. -/

namespace SmallC

/-- A symbol under another name. -/
def Symbol.renamed (rename : String → String) (symbol : Symbol) : Symbol :=
  { symbol with name := rename symbol.name }

namespace SymbolTable

/-- A table whose symbols are under other names. -/
def renamed (rename : String → String) (table : SymbolTable) : SymbolTable :=
  table.mapped (Symbol.renamed rename)

/-- Every symbol of the table has one of the names. -/
def Spelled (names : Set String) (table : SymbolTable) : Prop :=
  ∀ scope, ∀ symbol ∈ table.symbolsOf scope, symbol.name ∈ names

variable {rename : String → String} {names : Set String} {table : SymbolTable} {name : String}

theorem find?_renamed (distinct : names.InjOn rename) (spelled : table.Spelled names)
    (known : name ∈ names) (scope : ScopeId) :
    (table.renamed rename).find? scope (rename name) = table.find? scope name :=
  find?_mapped fun _ member => distinct.eq_iff (spelled scope _ member) known

theorem lookup?_renamed (distinct : names.InjOn rename) (spelled : table.Spelled names)
    (known : name ∈ names) : (table.renamed rename).lookup? (rename name) = table.lookup? name :=
  lookup?_mapped fun scope _ member => distinct.eq_iff (spelled scope _ member) known

theorem typeOf_renamed (rename : String → String) (table : SymbolTable) (id : SymbolId) :
    (table.renamed rename).typeOf id = table.typeOf id :=
  table.typeOf_mapped (Symbol.renamed rename) (fun _ => rfl) id

theorem offsetOf_renamed (rename : String → String) (table : SymbolTable) (id : SymbolId) :
    (table.renamed rename).offsetOf id = table.offsetOf id :=
  table.offsetOf_mapped (Symbol.renamed rename) (fun _ => rfl) id

/-- A symbol of the table that keeps its name. -/
def Fixed (rename : String → String) (table : SymbolTable) (id : SymbolId) : Prop :=
  ∀ symbol, table.symbol? id = some symbol → rename symbol.name = symbol.name

theorem nameOf_renamed {id : SymbolId} (fixed : table.Fixed rename id) :
    (table.renamed rename).nameOf id = table.nameOf id := by
  unfold nameOf renamed
  rw [symbol?_mapped]
  cases found : table.symbol? id with
  | none => rfl
  | some symbol => exact fixed symbol found

theorem Spelled.openScope (spelled : table.Spelled names) : table.openScope.2.Spelled names := by
  intro scope symbol member
  rw [symbolsOf_openScope] at member
  exact spelled scope symbol member

/-- What is left of a scope, or put into it, has one of the names. -/
theorem Spelled.modifySymbols (spelled : table.Spelled names) {scope : ScopeId}
    {change : List Symbol → List Symbol}
    (named : ∀ symbol ∈ change (table.symbolsOf scope), symbol.name ∈ names) :
    (table.modifySymbols scope change).Spelled names := by
  intro other symbol member
  rw [symbolsOf_modifySymbols] at member
  split at member
  · next here => exact named symbol (here.1 ▸ member)
  · exact spelled other symbol member

theorem Spelled.discard (spelled : table.Spelled names) (scope : ScopeId) :
    (table.discard scope).Spelled names :=
  spelled.modifySymbols fun _ nothing => absurd nothing List.not_mem_nil

theorem Spelled.insert (spelled : table.Spelled names) (scope : ScopeId) {symbol : Symbol}
    (known : symbol.name ∈ names) : (table.insert scope symbol).2.Spelled names := by
  refine spelled.modifySymbols fun other member => ?_
  rcases List.mem_append.mp member with before | here
  · exact spelled scope other before
  · exact List.mem_singleton.mp here ▸ known

end SymbolTable

/-! Places do not depend on names. -/

namespace Frame

variable (rename : String → String)

theorem placeParameters_renamed (offset : Int) (symbols : List Symbol) :
    placeParameters offset (symbols.map (Symbol.renamed rename)) =
      (placeParameters offset symbols).map (Symbol.renamed rename) := by
  induction symbols generalizing offset with
  | nil => rfl
  | cons symbol rest ih => exact congrArg (_ :: ·) (ih _)

theorem placeLocals_renamed (frame : Frame) (symbols : List Symbol) :
    frame.placeLocals (symbols.map (Symbol.renamed rename)) =
      ((frame.placeLocals symbols).1.map (Symbol.renamed rename), (frame.placeLocals symbols).2) := by
  induction symbols generalizing frame with
  | nil => rfl
  | cons symbol rest ih =>
    simp only [List.map_cons, placeLocals, ih]
    rfl

theorem bindParameters_renamed (scope : ScopeId) (count : Nat) (table : SymbolTable) :
    bindParameters scope count (table.renamed rename) =
      (bindParameters scope count table).renamed rename := by
  -- The symbols of the scope are placed first and renamed then, or the other way round.
  refine (SymbolTable.mapped_modifySymbols scope ?_).symm
  rw [List.map_append, ← placeParameters_renamed, List.map_take, List.map_drop]

theorem bindLocals_renamed (frame : Frame) (scope : ScopeId) (skip : Nat) (table : SymbolTable) :
    frame.bindLocals scope skip (table.renamed rename) =
      ((frame.bindLocals scope skip table).1, (frame.bindLocals scope skip table).2.renamed rename) := by
  have placed := frame.placeLocals_renamed rename ((table.symbolsOf scope).drop skip)
  have symbols := table.symbolsOf_mapped (Symbol.renamed rename) scope
  unfold bindLocals SymbolTable.renamed
  simp only [symbols, ← List.map_drop, placed, Prod.mk.injEq, true_and]
  refine (SymbolTable.mapped_modifySymbols scope ?_).symm
  rw [List.map_append, List.map_take]

end Frame

end SmallC
