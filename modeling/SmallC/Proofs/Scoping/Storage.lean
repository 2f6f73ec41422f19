import SmallC.Proofs.Scoping.Blocks

/-! Storage: when a function has been lowered, its parameters are above the base of its frame, its
variables below it, and the names of the unit in no frame at all. -/

namespace SmallC

/-- The symbols that are named in a function, its own first. -/
def Function.symbols (function : Function) : List SymbolId :=
  function.symbol :: Statement.symbolsOfList function.body

/-- A function that can be lowered: its names are declared, and its blocks have scopes of their
own. -/
structure Function.Settled (function : Function) (table : SymbolTable) : Prop where
  /-- The function is called by a name of the unit. -/
  unit : function.symbol.scope = unitScope
  /-- Names stay inside the blocks that declare them. -/
  confined : ∀ statement ∈ function.body, statement.Confined [function.scope, unitScope]
  /-- All scopes are different. -/
  distinct : (unitScope :: function.scopes).Nodup
  /-- All scopes are in the table. -/
  opened : ∀ scope ∈ function.scopes, scope < table.scopes.length
  /-- The parameters are in the scope of the body. -/
  counted : function.parameters ≤ (table.symbolsOf function.scope).length
  /-- All names are in the table. -/
  known : ∀ symbol ∈ function.symbols, (table.symbol? symbol).isSome
  /-- Nothing but the unit's names lacks storage. -/
  ready : table.Ready

namespace Frame

theorem placeLocals_negative {frame : Frame} {symbols : List Symbol} (base : frame.offset ≤ 0)
    (stored : ∀ symbol ∈ symbols, 0 < storageSize symbol.type) :
    ∀ symbol ∈ (frame.placeLocals symbols).1, symbol.offset < 0 := by
  -- The frame only grows downwards, so the offset of each variable is below that of the last.
  induction symbols generalizing frame with
  | nil => simp [placeLocals]
  | cons first rest ih =>
    have taken := stored first (by simp)
    have lower : (frame.allocate (storageSize first.type)).2.offset < 0 := by
      simp only [allocate]
      omega
    intro symbol member
    rcases List.mem_cons.mp member with rfl | member
    · exact lower
    · exact ih (Int.le_of_lt lower) (fun other member => stored other (by simp [member])) symbol member

theorem placeParameters_positive {offset : Int} (above : 0 < offset) (symbols : List Symbol) :
    ∀ symbol ∈ placeParameters offset symbols, 0 < symbol.offset := by
  induction symbols generalizing offset with
  | nil => simp [placeParameters]
  | cons first rest ih =>
    intro symbol member
    rcases List.mem_cons.mp member with rfl | member
    · exact above
    · exact ih (by omega) symbol member

/-- The parameters come first in the scope of a body whose symbols have been placed. -/
theorem length_placeParameters (offset : Int) (symbols : List Symbol) :
    (placeParameters offset symbols).length = symbols.length := by
  have same := congrArg List.length (declarations_placeParameters offset symbols)
  rwa [List.length_map, List.length_map] at same

end Frame

/-- All symbols of a scope are below the base of the frame. -/
def SymbolTable.Low (table : SymbolTable) (scope : ScopeId) : Prop :=
  ∀ symbol ∈ table.symbolsOf scope, symbol.offset < 0

namespace Progress

/-- Whatever is placed from here on is below the base of the frame. -/
structure Sunk (progress : Progress) : Prop where
  /-- Places are handed out below the base. -/
  base : progress.frame.offset ≤ 0
  /-- Symbols of functions take storage. -/
  stored : ∀ scope, scope ≠ unitScope → ∀ symbol ∈ progress.symbols.symbolsOf scope,
    0 < storageSize symbol.type

variable {old new : Progress}

theorem Sunk.later (sunk : old.Sunk) (advances : old.Advances new) : new.Sunk :=
  ⟨Int.le_trans advances.places sunk.base,
    fun scope outside => advances.alike.stored (sunk.stored scope outside)⟩

/-- The symbols of a block are placed below the base. -/
theorem low_bind (sunk : old.Sunk) {scope : ScopeId} (inner : scope ≠ unitScope) :
    (old.bind scope).symbols.Low scope := by
  unfold SymbolTable.Low
  rw [symbolsOf_bind_self]
  exact Frame.placeLocals_negative sunk.base (sunk.stored scope inner)

end Progress

/-! Functions. -/

namespace Function

variable {function : Function} {table : SymbolTable}

/-- The scope of the unit is none of the function's. -/
theorem Settled.inner (settled : function.Settled table) : unitScope ∉ function.scopes :=
  (List.nodup_cons.mp settled.distinct).1

/-- The scopes of blocks are not that of the body. -/
theorem Settled.blocks (settled : function.Settled table) :
    function.scope ∉ Statement.scopesOfList function.body :=
  (List.nodup_cons.mp (List.nodup_cons.mp settled.distinct).2).1

/-- The parameters are as many as are skipped when variables are placed. -/
theorem counted_parameters (settled : function.Settled table) :
    (Frame.placeParameters parameterBase
      ((table.symbolsOf function.scope).take function.parameters)).length = function.parameters := by
  rw [Frame.length_placeParameters, List.length_take, Nat.min_eq_left settled.counted]

/-- Placing the parameters leaves the variables behind them alone. -/
theorem symbolsOf_bindParameters (settled : function.Settled table) :
    (Frame.bindParameters function.scope function.parameters table).symbolsOf function.scope =
      Frame.placeParameters parameterBase
          ((table.symbolsOf function.scope).take function.parameters) ++
        (table.symbolsOf function.scope).drop function.parameters := by
  unfold Frame.bindParameters
  rw [SymbolTable.symbolsOf_modifySymbols,
    if_pos ⟨rfl, settled.opened function.scope (List.mem_cons_self ..)⟩]

/-- Where lowering starts, the frame holds the variables of the body. -/
theorem frame_entry (settled : function.Settled table) (nextLabel : Nat) :
    (function.entry table nextLabel).frame =
      (Frame.placeLocals {} ((table.symbolsOf function.scope).drop function.parameters)).2 := by
  unfold entry Frame.bindLocals
  dsimp only
  rw [symbolsOf_bindParameters settled, List.drop_left' (counted_parameters settled)]

/-- Where lowering starts, the symbols of the body have been placed. -/
theorem symbolsOf_entry (settled : function.Settled table) (nextLabel : Nat) :
    (function.entry table nextLabel).symbols.symbolsOf function.scope =
      Frame.placeParameters parameterBase
          ((table.symbolsOf function.scope).take function.parameters) ++
        (Frame.placeLocals {} ((table.symbolsOf function.scope).drop function.parameters)).1 := by
  have present : function.scope < table.scopes.length :=
    settled.opened function.scope (List.mem_cons_self ..)
  have alike := Frame.alike_bindParameters function.scope function.parameters table
  unfold entry Frame.bindLocals
  dsimp only
  rw [SymbolTable.symbolsOf_modifySymbols, if_pos ⟨rfl, alike.opened.symm ▸ present⟩,
    symbolsOf_bindParameters settled, List.take_left' (counted_parameters settled),
    List.drop_left' (counted_parameters settled)]

/-- Where lowering starts, other scopes are as they were. -/
theorem symbolsOf_entry_other {scope : ScopeId} (other : scope ≠ function.scope) (nextLabel : Nat) :
    (function.entry table nextLabel).symbols.symbolsOf scope = table.symbolsOf scope := by
  unfold entry Frame.bindLocals Frame.bindParameters
  dsimp only
  rw [SymbolTable.symbolsOf_modifySymbols, if_neg fun same => other same.1.symm,
    SymbolTable.symbolsOf_modifySymbols, if_neg fun same => other same.1.symm]

/-- Lowering starts at or below the base of the frame. -/
theorem sunk_entry (settled : function.Settled table) (nextLabel : Nat) :
    (function.entry table nextLabel).Sunk := by
  have alike : table.Alike (function.entry table nextLabel).symbols :=
    (Frame.alike_bindParameters _ _ _).trans (Frame.alike_bindLocals _ _ _ _)
  exact ⟨Frame.offset_placeLocals _ _,
    fun scope inner => alike.stored (settled.ready.stored scope inner)⟩

/-- Where the symbols of a function are when it has been lowered. -/
structure Housed (function : Function) (table : SymbolTable) : Prop where
  /-- Names of the unit have no place in the frame. -/
  unit : ∀ symbol ∈ table.symbolsOf unitScope, symbol.offset = 0
  /-- Parameters are above the base. -/
  parameters : ∀ slot symbol, slot < function.parameters →
    (table.symbolsOf function.scope)[slot]? = some symbol → 0 < symbol.offset
  /-- The variables of the body are below the base. -/
  locals : ∀ slot symbol, function.parameters ≤ slot →
    (table.symbolsOf function.scope)[slot]? = some symbol → symbol.offset < 0
  /-- The variables of blocks are below the base. -/
  blocks : ∀ scope ∈ Statement.scopesOfList function.body, table.Low scope

/-- The blocks of a function, each with the progress from which it is lowered. -/
def blocks (function : Function) (table : SymbolTable) (nextLabel : Nat) :
    List (ScopeId × Progress) :=
  Statement.blocksAll function.body { function := ⟨nextLabel⟩ } (function.entry table nextLabel)

/-- The blocks of a function are those of the scopes inside its body. -/
theorem perm_blocks (function : Function) (table : SymbolTable) (nextLabel : Nat) :
    ((function.blocks table nextLabel).map Prod.fst).Perm (Statement.scopesOfList function.body) :=
  Statement.perm_blocksAll_of (fun statement _ => statement.perm_blocks _) _

/-- When a function has been lowered, its blocks have the places that they have given their
variables. -/
theorem bound_blocks (settled : function.Settled table) (nextLabel : Nat) :
    ∀ block ∈ function.blocks table nextLabel, (function.last table nextLabel).symbols.Bound block :=
  Statement.bound_afterAll_of (fun _ _ distinct => Statement.bound_after distinct)
    (List.nodup_cons.mp (List.nodup_cons.mp settled.distinct).2).2 _

/-- Blocks are lowered after the start of the body. -/
theorem advances_blocks (function : Function) (table : SymbolTable) (nextLabel : Nat) :
    ∀ block ∈ function.blocks table nextLabel, (function.entry table nextLabel).Advances block.2 := by
  intro block listed
  obtain ⟨site, member, here⟩ := List.mem_flatMap.mp listed
  exact ((function.within_sites table nextLabel site member).blocks block here).2

/-- The body places only the symbols of its blocks. -/
theorem symbolsOf_last {scope : ScopeId} (outside : scope ∉ Statement.scopesOfList function.body)
    (nextLabel : Nat) : (function.last table nextLabel).symbols.symbolsOf scope =
      (function.entry table nextLabel).symbols.symbolsOf scope :=
  (Statement.placesAll function.body _ _).symbolsOf outside

/-- When a function has been lowered, its symbols are where they belong. -/
theorem housed_last (settled : function.Settled table) (nextLabel : Nat) :
    function.Housed (function.last table nextLabel).symbols := by
  have inner := settled.inner
  have outside : unitScope ≠ function.scope := fun same => inner (same ▸ List.mem_cons_self ..)
  have above : (0 : Int) < parameterBase := by decide
  have body := (symbolsOf_last settled.blocks nextLabel).trans (symbolsOf_entry settled nextLabel)
  have counted := counted_parameters settled
  -- Globals have no place, parameters have theirs above the frame, and what comes behind them below
  -- it; so do the symbols of blocks.
  refine ⟨?_, ?_, ?_, ?_⟩
  · rw [symbolsOf_last (fun listed => inner (List.mem_cons_of_mem _ listed)),
      symbolsOf_entry_other outside]
    exact settled.ready.unplaced
  · intro slot symbol low found
    rw [body, List.getElem?_append_left (counted.symm ▸ low)] at found
    exact Frame.placeParameters_positive above _ symbol (List.mem_of_getElem? found)
  · intro slot symbol high found
    rw [body, List.getElem?_append_right (counted.symm ▸ high)] at found
    refine Frame.placeLocals_negative (Int.le_refl 0) ?_ symbol (List.mem_of_getElem? found)
    intro declared member
    exact settled.ready.stored _ outside.symm declared (List.mem_of_mem_drop member)
  · intro scope listed
    obtain ⟨⟨_, begun⟩, block, rfl⟩ :=
      List.mem_map.mp ((function.perm_blocks table nextLabel).mem_iff.mpr listed)
    have sunk := (sunk_entry settled nextLabel).later (advances_blocks _ _ _ _ block)
    unfold SymbolTable.Low
    rw [bound_blocks settled nextLabel _ block]
    exact Progress.low_bind sunk fun outer => inner (List.mem_cons_of_mem _ (outer ▸ listed))

/-- Lowering a function changes nothing but the places of symbols. -/
theorem alike_last (function : Function) (table : SymbolTable) (nextLabel : Nat) :
    table.Alike (function.last table nextLabel).symbols :=
  generateFunction_alike function table { nextLabel }

/-- After a function has been lowered, others can be. -/
theorem ready_last (settled : function.Settled table) (nextLabel : Nat) :
    (function.last table nextLabel).symbols.Ready :=
  ⟨(housed_last settled nextLabel).unit, fun scope inner =>
    (alike_last function table nextLabel).stored (settled.ready.stored scope inner)⟩

/-- While a function is lowered, every name that is used is where it will be at the end. -/
theorem sees_sites (settled : function.Settled table) (nextLabel : Nat) :
    ∀ site ∈ function.sites table nextLabel,
      site.Sees (unitScope :: function.scopes) (function.last table nextLabel).symbols := by
  -- Around the body are its own scope and that of the unit.
  have distinct : ([function.scope, unitScope] ++ Statement.scopesOfList function.body).Nodup :=
    (List.Perm.swap _ _ _).nodup_iff.mp settled.distinct
  intro site member
  refine (Statement.sees_sitesAll_of (fun statement inside distinct progress => ?_) distinct _ site
    member).widen fun scope listed => (List.Perm.swap _ _ _).mem_iff.mp listed
  exact Statement.sees_sites (settled.confined statement inside) distinct progress

/-- Whether a symbol is one of the function's parameters. -/
def IsParameter (function : Function) (symbol : SymbolId) : Prop :=
  symbol.scope = function.scope ∧ symbol.slot < function.parameters

/-- The storage of a symbol: that of its own name for the unit, and else a place in the frame, above
the base for parameters and below it for variables. -/
structure Reaches (function : Function) (table : SymbolTable) (symbol : SymbolId)
    (operand : Operand) : Prop where
  /-- Exactly the symbols of the unit are global. -/
  outermost : (∃ name, operand = .global name) ↔ symbol.scope = unitScope
  /-- They are known by their names. -/
  named : symbol.scope = unitScope → operand = .global (table.nameOf symbol)
  /-- All others have a place of their own, which is not zero. -/
  framed : symbol.scope ≠ unitScope →
    operand = .frame (table.offsetOf symbol) ∧ table.offsetOf symbol ≠ 0
  /-- Parameters are above the base. -/
  above : function.IsParameter symbol → 0 < table.offsetOf symbol
  /-- Variables are below the base. -/
  below : symbol.scope ≠ unitScope → ¬ function.IsParameter symbol → table.offsetOf symbol < 0

/-- Where symbols have been placed, a name is read from the storage of its symbol. -/
theorem Housed.reaches (housed : function.Housed table) {symbol : SymbolId}
    (listed : symbol.scope ∈ unitScope :: function.scopes)
    (known : (table.symbol? symbol).isSome) :
    function.Reaches table symbol (Expression.operandOf table symbol) := by
  obtain ⟨held, found⟩ := Option.isSome_iff_exists.mp known
  have offset : table.offsetOf symbol = held.offset := by
    unfold SymbolTable.offsetOf
    rw [found]
    rfl
  have present : (table.symbolsOf symbol.scope)[symbol.slot]? = some held := found
  have zero (outer : symbol.scope = unitScope) : table.offsetOf symbol = 0 := by
    rw [outer] at present
    exact offset.trans (housed.unit held (List.mem_of_getElem? present))
  have above (parameter : function.IsParameter symbol) : 0 < table.offsetOf symbol := by
    rw [parameter.1] at present
    exact offset ▸ housed.parameters _ held parameter.2 present
  have below (inside : symbol.scope ≠ unitScope) (other : ¬ function.IsParameter symbol) :
      table.offsetOf symbol < 0 := by
    rw [offset]
    rcases List.mem_cons.mp listed with outer | listed
    · exact absurd outer inside
    · rcases List.mem_cons.mp listed with same | block
      · have high : function.parameters ≤ symbol.slot := Nat.le_of_not_lt fun low => other ⟨same, low⟩
        rw [same] at present
        exact housed.locals _ held high present
      · exact housed.blocks _ block held (List.mem_of_getElem? present)
  -- The place of a symbol is zero for a global alone, which is how a use tells it.
  have nonzero (inside : symbol.scope ≠ unitScope) : table.offsetOf symbol ≠ 0 := by
    by_cases parameter : function.IsParameter symbol
    · have := above parameter
      omega
    · have := below inside parameter
      omega
  have named (outer : symbol.scope = unitScope) :
      Expression.operandOf table symbol = .global (table.nameOf symbol) := if_pos (zero outer)
  have framed (inside : symbol.scope ≠ unitScope) :
      Expression.operandOf table symbol = .frame (table.offsetOf symbol) := if_neg (nonzero inside)
  refine ⟨⟨?_, fun outer => ⟨_, named outer⟩⟩, named, fun inside => ⟨framed inside, nonzero inside⟩,
    above, below⟩
  rintro ⟨name, global⟩
  by_cases outer : symbol.scope = unitScope
  · exact outer
  · rw [framed outer] at global
    cases global

/-- Wherever a function uses a name, it reaches the storage of its symbol. -/
theorem reaches_identifier (settled : function.Settled table) (nextLabel : Nat) {symbol : SymbolId}
    {type : Ty} {progress : Progress}
    (used : .node (.identifier symbol type) progress ∈ function.sites table nextLabel)
    (known : (table.symbol? symbol).isSome) :
    function.Reaches (function.last table nextLabel).symbols symbol
      ((Expression.identifier symbol type).lowered progress).value := by
  obtain ⟨listed, same⟩ := sees_sites settled nextLabel _ used (.identifier symbol type, progress)
    (by simp [Site.subjects]) symbol (by simp)
  have held : progress.symbols.symbol? symbol =
      (function.last table nextLabel).symbols.symbol? symbol :=
    congrArg (·[symbol.slot]?) same
  have present : ((function.last table nextLabel).symbols.symbol? symbol).isSome :=
    (alike_last function table nextLabel).known known
  -- What the use sees is where the symbol is in the end.
  have reached : ((Expression.identifier symbol type).lowered progress).value =
      Expression.operandOf (function.last table nextLabel).symbols symbol := by
    unfold Expression.lowered
    rw [Expression.lower_identifier]
    unfold Expression.operandOf SymbolTable.offsetOf SymbolTable.nameOf
    rw [held]
  rw [reached]
  exact (housed_last settled nextLabel).reaches listed present

end Function

end SmallC
