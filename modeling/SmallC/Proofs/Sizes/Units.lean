import SmallC.Proofs.Assembly.Prefixing
import SmallC.Proofs.Assembly.Strings
import SmallC.Proofs.Frames.Requests
import SmallC.Proofs.Parallel.Raising
import SmallC.Proofs.Sizes.Refused

/-! Sizes of a unit: the storage and the frames of what compiles have for each object just the bytes that
it takes, and a source with an array that takes too many does not compile. -/

namespace SmallC

/-! Owners: at the end of a unit, every scope that still has symbols is that of the unit or belongs to a
function that has been handed on, and its symbols are where that function has left them. -/

namespace SymbolTable

variable {old new : SymbolTable}

/-- Sizes stay exact where only places have changed. -/
theorem Alike.exact (alike : old.Alike new) (exact : old.Exact) : new.Exact := by
  intro scope symbol member object
  obtain ⟨known, present, same⟩ := alike.mem member
  have type : known.type = symbol.type := congrArg Prod.snd same
  exact type ▸ exact scope known present (type ▸ object)

end SymbolTable

/-- A function places only symbols of its own scopes. -/
theorem symbolsOf_generating {function : Function} {table : SymbolTable} {scope : ScopeId}
    (other : scope ∉ function.scopes) (checkOnly : Bool) (generated : Generated) :
    (generating checkOnly function table generated).1.symbolsOf scope = table.symbolsOf scope := by
  unfold generating
  split
  · rfl
  · have outside : scope ≠ function.scope := fun same => other (same ▸ List.mem_cons_self)
    have inside : scope ∉ Statement.scopesOfList function.body :=
      fun listed => other (List.mem_cons_of_mem _ listed)
    exact (Function.symbolsOf_last inside _).trans (Function.symbolsOf_entry_other outside _)

/-! What is checked at the top of a unit. -/

/-- The parameters of a function without a body are dropped. -/
theorem symbolsOf_prototype (specifier : Specifier) (indirection : Nat) (name : String)
    (parameters : Parameters) {checker : Checker} (between : checker.Between) :
    ((GlobalDeclarator.prototype indirection name parameters).elaborate specifier
      checker).2.symbols.symbolsOf checker.symbols.scopes.length = [] := by
  let listed := parameters.elaborate specifier indirection checker
  let closed := listed.2.closeParameters
  have rooted : unitScope < checker.symbols.scopes.length :=
    Checker.lt_of_active between.proper (Checker.unitScope_active between.proper)
  have inner : checker.symbols.scopes.length ≠ unitScope := Nat.ne_of_gt rooted
  obtain ⟨leaves, same⟩ := Checking.local_mapM Parameter.local_elaborate parameters.listed
    checker.openScope.2 (Checker.inside_openScope rooted)
  have active : listed.2.symbols.active = [checker.symbols.scopes.length, unitScope] :=
    same.trans (congrArg (_ :: ·) between.top)
  have current : listed.2.symbols.current? = some checker.symbols.scopes.length :=
    congrArg List.head? active
  have emptied : closed.symbols = _ := Checker.symbols_closeParameters current inner
  -- Declaring the function afterwards adds to the unit only.
  have isClosed : closed.symbols.Closed (checker.symbols.scopes.length + 1) := by
    have opened : checker.openScope.2.symbols.scopes.length = checker.symbols.scopes.length + 1 :=
      List.length_append
    have outer : closed.symbols.active = [unitScope] := by
      rw [emptied]
      exact congrArg List.tail active
    refine ⟨?_, fun scope member => .inl (List.mem_singleton.mp (outer ▸ member))⟩
    rw [emptied, SymbolTable.discard, SymbolTable.length_modifySymbols, ← opened]
    exact leaves.opened
  obtain ⟨-, agrees⟩ := (Checking.edits_declareFunction
    (parameters.isObject_elaborate specifier indirection checker) closed).closed isClosed
  refine (agrees _ inner (Nat.lt_succ_self _)).trans ?_
  rw [emptied]
  exact SymbolTable.symbolsOf_discard_self _ _

/-- A function without a body, or a variable, leaves no symbols in any new scope. -/
theorem GlobalDeclarator.Derives.fresh {specifier : Specifier} {start rest : List Token}
    {declarator : GlobalDeclarator} (derived : declarator.Derives specifier start rest)
    {checker : Checker} (between : checker.Between) {scope : ScopeId}
    (fresh : checker.symbols.scopes.length ≤ scope) :
    (declarator.elaborate specifier checker).2.symbols.symbolsOf scope = [] := by
  obtain ⟨scoping, -⟩ := declarator.follows_elaborate derived between
  have opened : (declarator.elaborate specifier checker).2.symbols.scopes.length =
      (declarator.declare checker.scoping).opened := congrArg Scoping.opened scoping
  cases derived with
  | object => exact SymbolTable.symbolsOf_absent (opened.trans_le fresh)
  | @prototype name _ _ _ _ _ indirection parameters =>
    -- A prototype opens one scope for its parameters, and empties it again.
    rcases Nat.eq_or_lt_of_le fresh with rfl | beyond
    · exact symbolsOf_prototype specifier indirection name.text parameters between
    · refine SymbolTable.symbolsOf_absent (opened.trans_le ?_)
      simp only [GlobalDeclarator.declare, Scoping.declareIn, Scoping.leave,
        Scoping.opened_declareAll]
      exact beyond

/-- A definition at the top of a unit is checked to a function whose scopes are all that is new. -/
theorem Definition.scopes_elaborate {definition : Definition} {declared body rest : List Token}
    (declares : Run Declaration.Derives declared definition.declared body)
    (runs : Run Clause.Derives body definition.body rest) {checker : Checker}
    (between : checker.Between) :
    let made := definition.elaborate checker
    ∃ count, made.1.scopes = List.range' checker.symbols.scopes.length count ∧
      made.2.symbols.scopes.length = checker.symbols.scopes.length + count := by
  have begins := definition.begins_announce declares between.proper
  rw [definition.elaborate_eq]
  generalize definition.announce checker = begun at begins
  obtain ⟨⟨symbol, parameters⟩, prepared⟩ := begun
  obtain ⟨walks, -⟩ := Clause.Derives.traced_run runs prepared
    (between.proper.enter.returns begins.entered)
  obtain ⟨-, -, count, scopes, last⟩ := begins.numbered walks between.top
  exact ⟨count + 1, scopes, last⟩

/-! Units. -/

/-- Every symbol of a unit has its owner, behind the functions that have been handed on. -/
structure SymbolTable.OwnedBy (table : SymbolTable) (checkOnly : Bool) (entries : List Handed) :
    Prop where
  /-- All objects have exact sizes. -/
  exact : table.Exact
  /-- A scope that has symbols is that of the unit or belongs to one of the functions. -/
  owned : ∀ scope, scope ≠ unitScope → table.symbolsOf scope ≠ [] →
    ∃ entry ∈ entries, scope ∈ entry.function.scopes
  /-- Its symbols are where writing that function has left them. -/
  kept : ∀ entry ∈ entries, ∀ scope ∈ entry.function.scopes,
    scope ≠ unitScope ∧ scope < table.scopes.length ∧ table.symbolsOf scope =
      (generating checkOnly entry.function entry.symbols entry.generated).1.symbolsOf scope

namespace SymbolTable

variable {old new : SymbolTable} {checkOnly : Bool} {entries : List Handed}

/-- The unit may go on while only scopes of the unit and of further functions change. -/
theorem OwnedBy.later (owned : old.OwnedBy checkOnly entries) (exact : new.Exact)
    (longer : old.scopes.length ≤ new.scopes.length) (agrees : old.Agrees new old.scopes.length)
    (more : List Handed)
    (fresh : ∀ scope, old.scopes.length ≤ scope → new.symbolsOf scope ≠ [] →
      ∃ entry ∈ more, scope ∈ entry.function.scopes)
    (kept : ∀ entry ∈ more, ∀ scope ∈ entry.function.scopes,
      scope ≠ unitScope ∧ scope < new.scopes.length ∧ new.symbolsOf scope =
        (generating checkOnly entry.function entry.symbols entry.generated).1.symbolsOf scope) :
    new.OwnedBy checkOnly (entries ++ more) where
  exact := exact
  -- Below the old number of scopes the owners are the old ones; above it they are the new ones.
  owned scope inner some := by
    rcases Nat.lt_or_ge scope old.scopes.length with below | above
    · obtain ⟨entry, member, listed⟩ := owned.owned scope inner (agrees scope inner below ▸ some)
      exact ⟨entry, List.mem_append_left _ member, listed⟩
    · obtain ⟨entry, member, listed⟩ := fresh scope above some
      exact ⟨entry, List.mem_append_right _ member, listed⟩
  kept entry member scope listed := by
    rcases List.mem_append.mp member with before | added
    · obtain ⟨inner, below, same⟩ := owned.kept entry before scope listed
      exact ⟨inner, Nat.lt_of_lt_of_le below longer, (agrees scope inner below).trans same⟩
    · exact kept entry added scope listed

/-- Where a unit starts, there is nothing to own. -/
theorem ownedBy_start (checkOnly : Bool) : (openScope {}).2.OwnedBy checkOnly [] where
  exact scope symbol member := by
    rw [symbolsOf_start] at member
    cases member
  owned scope _ some := absurd (symbolsOf_start scope) some
  kept := List.forall_mem_nil _

end SymbolTable

/-- Between declarations, all scopes but that of the unit are closed. -/
theorem Checker.Between.closed {checker : Checker} (between : checker.Between) :
    checker.symbols.Closed checker.symbols.scopes.length where
  opened := Nat.le_refl _
  closed _ member := .inl (List.mem_singleton.mp (between.top ▸ member))

/-- Variables and functions without a body leave the owners as they are. -/
theorem GlobalDeclarator.ownedBy_elaborateAll {specifier : Specifier}
    {declarators : List GlobalDeclarator}
    (each : ∀ declarator ∈ declarators, ∃ start rest, declarator.Derives specifier start rest)
    {checker : Checker} {checkOnly : Bool} {entries : List Handed} (between : checker.Between)
    (owned : checker.symbols.OwnedBy checkOnly entries) :
    (declarators.mapM' (GlobalDeclarator.elaborate specifier) checker).2.symbols.OwnedBy checkOnly
      entries := by
  induction declarators generalizing checker with
  | nil => exact owned
  | cons first rest ih =>
    obtain ⟨⟨_, _, derived⟩, others⟩ := List.forall_mem_cons.mp each
    obtain ⟨-, left⟩ := first.follows_elaborate derived between
    have edits := derived.edits checker
    obtain ⟨closed, agrees⟩ := edits.closed between.closed
    have here := owned.later (edits.exact owned.exact) closed.opened agrees []
      (fun scope above some => absurd (derived.fresh between above) some) (List.forall_mem_nil _)
    exact ih others left (List.append_nil entries ▸ here)

/-- A function with its body owns the scopes of its parameters and of its blocks. -/
theorem Definition.ownedBy_elaborate {definition : Definition} {declared body rest : List Token}
    (declares : Run Declaration.Derives declared definition.declared body)
    (runs : Run Clause.Derives body definition.body rest) {checker : Checker}
    (between : checker.Between) {checkOnly : Bool} {entries : List Handed}
    (owned : checker.symbols.OwnedBy checkOnly entries) (generated : Generated) :
    let made := definition.elaborate checker
    (generating checkOnly made.1 made.2.symbols generated).1.OwnedBy checkOnly
      (entries ++ [⟨made.1, made.2.symbols, generated⟩]) := by
  intro made
  have edits := definition.edits_elaborate declares runs checker
  obtain ⟨closed, agrees⟩ := edits.closed between.closed
  obtain ⟨count, scopes, last⟩ := definition.scopes_elaborate declares runs between
  have alike := generating_alike checkOnly made.1 made.2.symbols generated
  have rooted := Checker.lt_of_active between.proper (Checker.unitScope_active between.proper)
  -- The scopes of a function are the ones that were opened while it was checked, in one range.
  have range {scope : ScopeId} : scope ∈ made.1.scopes ↔
      checker.symbols.scopes.length ≤ scope ∧ scope < made.2.symbols.scopes.length := by
    rw [scopes, last, List.mem_range'_1]
  -- Scopes in front of the range stay as they are, and the ones in it belong to this function.
  refine owned.later (alike.exact (edits.exact owned.exact)) (alike.opened ▸ closed.opened) ?_ _ ?_ ?_
  · intro scope inner below
    refine (symbolsOf_generating (fun listed => ?_) checkOnly generated).trans
      (agrees scope inner below)
    exact Nat.not_lt.mpr (range.mp listed).1 below
  · intro scope above some
    refine ⟨_, List.mem_singleton_self _, range.mpr ⟨above, Nat.lt_of_not_le fun beyond => ?_⟩⟩
    exact some (SymbolTable.symbolsOf_absent (alike.opened ▸ beyond))
  · intro entry member scope listed
    obtain rfl := List.mem_singleton.mp member
    obtain ⟨above, below⟩ := range.mp listed
    exact ⟨Nat.ne_of_gt (Nat.lt_of_lt_of_le rooted above), alike.opened ▸ below, rfl⟩

/-- All that a unit declares has its owner in the end. -/
theorem Global.ownedBy_elaborateAll (checkOnly : Bool) {start rest : List Token}
    {globals : List Global} (run : Run Global.Derives start globals rest) :
    ∀ (checker : Checker) (generated : Generated) (handed : List Handed), checker.Between →
      checker.symbols.OwnedBy checkOnly handed →
        let done := Global.elaborateAll (recording checkOnly) globals checker (generated, handed)
        done.1.symbols.OwnedBy checkOnly done.2.2 := by
  induction run with
  | nil => exact fun _ _ _ _ owned => owned
  | cons head tail ih =>
    intro checker generated handed between owned
    cases head with
    | declaration specified declared closes =>
      obtain ⟨-, left⟩ := GlobalDeclarator.follows_elaborateAll declared.each between
      exact ih _ generated handed left
        (GlobalDeclarator.ownedBy_elaborateAll declared.each between owned)
    | @definition _ name _ _ _ _ _ _ _ _ _ specifier indirection parameters declarations clauses _ _ _
        _ _ _ _ declares runs =>
      let definition : Definition :=
        ⟨specifier, indirection, name.text, parameters, declarations, clauses⟩
      let made := definition.elaborate checker
      obtain ⟨-, returns, settled, -⟩ := definition.follows_elaborate declares runs between.proper
        between.top between.ready
      -- What comes next starts from the table in which the symbols have been placed.
      have left := (between.returns returns settled.ready).placed
        (generating_alike checkOnly made.1 made.2.symbols generated)
        (ready_generating settled checkOnly generated)
      exact ih _ (generating checkOnly made.1 made.2.symbols generated).2
        (handed ++ [⟨made.1, made.2.symbols, generated⟩]) left
        (definition.ownedBy_elaborate declares runs between owned generated)

/-! What is reserved. -/

namespace Handed

variable {entry : Handed}

/-- Where a function places the variables of a scope: how many symbols it passes over, what its frame
has handed out before, and the table there. -/
inductive Binds (entry : Handed) : ScopeId → (skip : Nat) → Frame → SymbolTable → Prop where
  /-- The variables of the body are placed first, behind the parameters. -/
  | body : Binds entry entry.function.scope entry.function.parameters {}
      (Frame.bindParameters entry.function.scope entry.function.parameters entry.symbols)
  /-- Those of a block are placed where it starts. -/
  | block {block : ScopeId × Progress}
    (listed : block ∈ entry.function.blocks entry.symbols entry.generated.nextLabel) :
    Binds entry block.1 0 block.2.frame block.2.symbols

/-- Every scope of a function is placed once it is entered. -/
theorem binds_of_mem {scope : ScopeId} (listed : scope ∈ entry.function.scopes) :
    ∃ skip frame symbols, entry.Binds scope skip frame symbols := by
  rcases List.mem_cons.mp listed with rfl | inner
  · exact ⟨_, _, _, .body⟩
  · obtain ⟨block, present, rfl⟩ :=
      List.mem_map.mp ((entry.function.perm_blocks _ entry.generated.nextLabel).mem_iff.mpr inner)
    exact ⟨_, _, _, .block present⟩

/-- Placing the variables of a scope takes what is reserved for each of them, and they stay there. -/
theorem Binds.stacked {scope : ScopeId} {skip : Nat} {frame : Frame} {symbols : SymbolTable}
    (binds : entry.Binds scope skip frame symbols)
    (settled : entry.function.Settled entry.symbols) :
    let bound := frame.bindLocals scope skip symbols
    scope ∈ entry.function.scopes ∧
      entry.last.symbols.symbolsOf scope = bound.2.symbolsOf scope ∧
      Stacked frame.offset (((entry.last.symbols.symbolsOf scope).drop skip).map Symbol.slot)
        bound.1.offset := by
  cases binds with
  | body =>
    have last : entry.last.symbols.symbolsOf entry.function.scope = _ :=
      Function.symbolsOf_last settled.blocks entry.generated.nextLabel
    -- The parameters are placed first, and the locals are what is left behind them.
    refine ⟨List.mem_cons_self, last, ?_⟩
    rw [last, Function.symbolsOf_entry settled,
      List.drop_left' (Function.counted_parameters settled)]
    have frame := Function.frame_entry settled entry.generated.nextLabel
    exact congrArg Frame.offset frame ▸ Frame.stacked_placeLocals {} _
  | @block block listed =>
    have last : entry.last.symbols.symbolsOf block.1 = _ :=
      Function.bound_blocks settled entry.generated.nextLabel block listed
    refine ⟨List.mem_cons_of_mem _ ?_, last, ?_⟩
    · exact (entry.function.perm_blocks _ _).mem_iff.mp (List.mem_map_of_mem listed)
    · rw [last, Progress.symbolsOf_bind_self]
      exact Frame.stacked_placeLocals block.2.frame (block.2.symbols.symbolsOf block.1)

/-- A function reserves no storage of the unit. -/
theorem common_not_mem (name : String) (bytes : Nat) :
    .common name bytes ∉ entry.code ++ entry.constants := by
  rw [code_sites, List.mem_append, List.mem_append, List.mem_append]
  rintro (((before | inside) | behind) | constant)
  · simp [prologue, operate] at before
  · obtain ⟨site, listed, here⟩ := List.mem_flatMap.mp inside
    exact (entry.function.proper_sites _ _ site listed).mentions _ here
  · simp [epilogue, operate] at behind
  · rcases mem_literalItems constant with same | same | ⟨label, value, same⟩ <;> cases same

end Handed

/-- Storage is written for an object of the unit, with its exact size. -/
theorem globalItem?_eq_some {symbol : Symbol} (sized : symbol.type.isObject = true → symbol.type.Sized)
    {name : String} {bytes : Nat} : globalItem? symbol = some (.common name bytes) ↔
      symbol.type.isObject = true ∧ symbol.name = name ∧ symbol.type.bytes = bytes := by
  unfold globalItem?
  cases same : symbol.type with
  | error | function => simp [Ty.isFunction, Ty.isError, Ty.isObject]
  | scalar | array =>
    rw [same] at sized
    simp [Ty.isFunction, Ty.isError, Ty.isObject, (sized rfl).exact]

/-- What is reserved for the objects of a source is what they take. -/
structure Reserves (options : Options) (source : String) : Prop where
  /-- Every object, in whatever scope it is declared, has an exact size. -/
  sized : (tableFrom options source).Exact
  /-- Storage is written for just the objects of the unit, as much as each of them takes. -/
  globals : options.checkOnly = false → ∀ name bytes,
    .common name bytes ∈ itemsFrom options source ↔
      ∃ symbol ∈ (tableFrom options source).symbolsOf unitScope,
        symbol.type.isObject = true ∧ symbol.name = name ∧ symbol.type.bytes = bytes
  /-- All other symbols are in scopes that functions place. -/
  placed : options.checkOnly = false → ∀ scope, scope ≠ unitScope →
    (tableFrom options source).symbolsOf scope ≠ [] →
      ∃ entry ∈ writtenFrom options source, ∃ skip frame symbols,
        entry.Binds scope skip frame symbols
  /-- Placing them takes from the frame what each of them takes, one below the other, and there they
  stay. -/
  locals : ∀ entry ∈ writtenFrom options source, ∀ scope skip frame symbols,
    entry.Binds scope skip frame symbols →
      let bound := frame.bindLocals scope skip symbols
      (tableFrom options source).symbolsOf scope = bound.2.symbolsOf scope ∧
        Stacked frame.offset ((((tableFrom options source).symbolsOf scope).drop skip).map
          (Symbol.placed Ty.reserved)) bound.1.offset

section Compiled

variable {options : Options} {file source : String} {compilation : Compilation}

/-- At the end of a source every symbol has its owner. -/
theorem ownedBy_compile (compiled : compile options file source = .ok compilation) :
    (tableFrom options source).OwnedBy options.checkOnly (handedOver options source) := by
  obtain ⟨tokens, lexed, done, handed, -⟩ := compile_outcome compiled
  obtain ⟨globals, checker, concludes⟩ := compile_concludes compiled
  obtain ⟨others, again, derived, -⟩ := concludes.derived
  obtain rfl := Except.ok.inj (lexed.symm.trans again)
  -- What the reader has checked is what checking makes of the derivation, but for places in the source.
  have checked := readUnit_checks (recording options.checkOnly) (ended_tokensOf lexed) derived done
  obtain ⟨last, -, run⟩ := derived
  have owned := Global.ownedBy_elaborateAll options.checkOnly run {} {} [] Checker.between_start
    (SymbolTable.ownedBy_start _)
  rw [checked] at owned
  have table : tableFrom options source = (readUnit (recording options.checkOnly) tokens options.limit
      ({}, [])).reader.checker.symbols := by
    unfold tableFrom
    rw [lexed, (readUnit_recording options.checkOnly tokens options.limit).1]
  rw [table, handed]
  exact owned

/-- The storage that is written is that of the last table. -/
theorem storageFrom_eq (compiled : compile options file source = .ok compilation)
    (assembled : options.checkOnly = false) : storageFrom options source =
      ((tableFrom options source).symbolsOf unitScope).filterMap globalItem? := by
  obtain ⟨tokens, lexed, -⟩ := compile_outcome compiled
  unfold storageFrom tableFrom
  rw [lexed]
  dsimp only
  rw [assembled, if_neg Bool.false_ne_true]

/-- Whatever source compiles, its objects have what they take. -/
theorem reserves_compile (compiled : compile options file source = .ok compilation) :
    Reserves options source := by
  have owned := ownedBy_compile compiled
  refine ⟨owned.exact, fun assembled name bytes => ?_, fun assembled scope inner some => ?_, ?_⟩
  · have elsewhere : .common name bytes ∉ (writtenFrom options source).flatMap
        fun entry => entry.code ++ entry.constants := by
      intro member
      obtain ⟨entry, -, here⟩ := List.mem_flatMap.mp member
      exact entry.common_not_mem name bytes here
    rw [itemsFrom, List.mem_append, or_iff_right elsewhere, storageFrom_eq compiled assembled,
      List.mem_filterMap]
    refine exists_congr fun symbol => and_congr_right fun member => ?_
    exact globalItem?_eq_some (owned.exact unitScope symbol member)
  · obtain ⟨entry, member, listed⟩ := owned.owned scope inner some
    refine ⟨entry, ?_, Handed.binds_of_mem listed⟩
    unfold writtenFrom
    rwa [assembled, if_neg Bool.false_ne_true]
  · intro entry member scope skip frame symbols binds
    unfold writtenFrom at member
    split at member
    · cases member
    · next assembled =>
      obtain ⟨listed, bound, stacked⟩ := binds.stacked (settled_handedOver compiled entry member)
      obtain ⟨-, -, same⟩ := owned.kept entry member scope listed
      -- Writing the function has left its symbols where lowering it has.
      have last : (tableFrom options source).symbolsOf scope = entry.last.symbols.symbolsOf scope := by
        rw [same, generating, if_neg assembled, generateFunction_eq]
        rfl
      have slots : ((entry.last.symbols.symbolsOf scope).drop skip).map Symbol.slot =
          (((tableFrom options source).symbolsOf scope).drop skip).map
            (Symbol.placed Ty.reserved) := by
        rw [← last]
        refine List.map_congr_left fun symbol inside => ?_
        have sized := owned.exact scope symbol (List.mem_of_mem_drop inside)
        exact congrArg (Slot.mk symbol.offset) (Ty.storageSize_eq_reserved sized)
      exact ⟨last.trans bound, slots ▸ stacked⟩

end Compiled

/-! What is refused. -/

/-- A lexeme that is a whole number has only digits. -/
theorem Lexeme.integer_cases {piece : List Char} (lexeme : Lexeme .integer piece) : Digits piece := by
  -- Neither a keyword nor a sign is a number.
  generalize same : TokenKind.integer = kind at lexeme
  cases lexeme with
  | integer whole => exact whole
  | keyword listed =>
    subst same
    unfold TokenKind.keyword? at listed
    split at listed <;> cases listed
  | sign listed =>
    subst same
    have none : ∀ entry ∈ signs, entry.2 ≠ .integer := by decide
    exact absurd rfl (none _ listed)
  | _ => cases same

/-- Every whole number of a source is spelled with digits. -/
theorem digits_tokensOf {source : String} {tokens : List Token} (lexed : tokensOf source = .ok tokens) :
    ∀ token ∈ tokens, token.kind = .integer → Digits token.text.toList := by
  intro token member spelled
  obtain ⟨piece, lexeme, same⟩ :=
    (tiled_of_tokens (tokensOf_eq_ok.mp lexed)).lexeme token member (by simp [spelled])
  rw [spelled] at lexeme
  rw [same, String.toList_ofList]
  exact lexeme.integer_cases

/-- With more levels a unit stops for the same reason, unless there were too few of them before. -/
theorem exhausted_or_failure_eq {σ : Type} (consume : Consumer σ) (tokens : List Token)
    {limit more : Nat} (higher : limit ≤ more) (output : σ) :
    (readUnit consume tokens limit output).Exhausted ∨
      (readUnit consume tokens more output).failure? =
        (readUnit consume tokens limit output).failure? := by
  have consumes : Pairing.raising.ConsumesWhere (fun _ _ _ => True) consume consume Eq := by
    rintro left _ function _ output _ rfl rfl rfl -
    exact ⟨rfl, rfl⟩
  have readers : Pairing.raising.Readers (.before tokens limit {}) (.before tokens more {}) :=
    .before Pairing.lawful_raising (List.forall₂_same.mpr fun _ _ => rfl) higher
  exact (Pairing.ends_readDeclarations Pairing.lawful_raising consumes readers.remaining readers rfl
    (Pairing.handsOn_anything ..)).imp And.right fun ends => ends.failure_eq rfl

/-- A source does not compile because of the failure: so it ends where nesting may be deep enough for
its tokens, and everywhere else unless nesting is too deep before. -/
structure Refuses (options : Options) (file source : String) (tokens : List Token) (failure : Failure) :
    Prop where
  /-- Two levels for each token are enough. -/
  enough : 2 * tokens.length + 1 ≤ options.limit → compile options file source = .error failure
  /-- With fewer of them reading may stop earlier, but then because of them. -/
  otherwise : compile options file source = .error failure ∨
    ∃ line limit, compile options file source = .error (.tooDeep line limit)

/-- What stops a unit stops compilation. -/
theorem refuses_of_halts {source : String} {tokens : List Token} {failure : Failure}
    (lexed : tokensOf source = .ok tokens) (halts : Reading.Halts failure .unit tokens)
    (options : Options) (file : String) : Refuses options file source tokens failure := by
  have stops {limit : Nat} (enough : 2 * tokens.length + 1 ≤ limit) :
      (readUnit (generating options.checkOnly) tokens limit {}).failure? = some failure := by
    have remaining : (Reader.before tokens limit {}).remaining = tokens :=
      congrArg Stage.tokens (stage_before (ended_tokensOf lexed) limit)
    exact halts _ _ _ _ _ remaining (by rw [remaining]) enough
  have fails {failure : Failure} (failed :
      (readUnit (generating options.checkOnly) tokens options.limit {}).failure? = some failure) :
      compile options file source = .error failure := by
    rw [compile_eq_bind, lexed]
    show compileTokens options file tokens = _
    unfold compileTokens
    simp only [failed]
  refine ⟨fun enough => fails (stops enough), ?_⟩
  -- A limit that is too low is raised until it is high enough.
  rcases exhausted_or_failure_eq (generating options.checkOnly) tokens
    (Nat.le_max_left options.limit (2 * tokens.length + 1)) {} with spent | same
  · obtain ⟨line, limit, failed⟩ := spent
    exact .inr ⟨line, limit, fails failed⟩
  · exact .inl (fails (same ▸ stops (Nat.le_max_right _ _)))

/-- Sizes of objects are exact. Counted in words, an array may be declared where the product of its
length and the size of an element is a word not above the ceiling, and its size is that product, or the
largest word where there is none; but for all arrays that may be declared there is one, and the grammar
has no other variables and parameters. Of whatever source compiles, each object has just what it takes.
An array that takes more than the ceiling stops each of the actions that read declarators, and wherever
one stands behind what is of the grammar, the source does not compile because of it. -/
theorem compile_sizes :
    (∀ (specifier : Specifier) (indirection : Nat) (length : UInt32),
      let product := wordProduct? length (UInt32.ofNat (Ty.elementSize specifier indirection))
      Ty.sizedArray? specifier indirection length.toNat =
        (product.filter fun size => size.toNat ≤ Ty.objectCeiling).map
          (fun _ => .array specifier indirection length.toNat) ∧
      (Ty.array specifier indirection length.toNat).size = (product.getD (-1)).toNat) ∧
    (∀ specifier indirection length, (Ty.array specifier indirection length).Sized →
      ∃ words size : UInt32, words.toNat = length ∧
        wordProduct? words (UInt32.ofNat (Ty.elementSize specifier indirection)) = some size ∧
          size.toNat = (Ty.array specifier indirection length).bytes) ∧
    (∀ {specifier start rest} {declarator : Declarator}, declarator.Derives specifier start rest →
      (declarator.type specifier).Sized) ∧
    (∀ specifier indirection, (Ty.scalar specifier indirection).Sized) ∧
    (∀ {options file source compilation}, compile options file source = .ok compilation →
      compilation.assembly = assemblyText options.globalPrefix (itemsFrom options source) ∧
        Reserves options source) ∧
    ∀ {source front start specifier failure}, tokensOf source = .ok (front ++ start) →
      Declarator.Exceeds specifier start failure →
        Reading.Fails (Reading.declarator specifier) start failure ∧
        Reading.Fails (Reading.globalDeclarator specifier) start failure ∧
        (∀ word : Token, word.kind = .specifier specifier →
          Reading.Fails Reading.topLevel (word :: start) failure) ∧
        (Awaits specifier .unit (front ++ start) start →
          ∀ options file, Refuses options file source (front ++ start) failure) := by
  refine ⟨fun specifier indirection length => ⟨Ty.sizedArray?_words specifier indirection length,
    Ty.size_words specifier indirection length⟩, fun _ _ _ => Ty.Sized.words,
    Declarator.Derives.sized, Ty.sized_scalar, fun compiled => ?_, fun lexed exceeds => ?_⟩
  · obtain ⟨globals, checker, concludes⟩ := compile_concludes compiled
    exact ⟨concludes.assembly, reserves_compile compiled⟩
  · have digits := fun token member =>
      digits_tokensOf lexed token (List.mem_append_right _ member)
    refine ⟨Reading.fails_declarator exceeds digits, Reading.fails_globalDeclarator exceeds digits,
      fun _ => Reading.fails_topLevel exceeds digits, fun awaits => ?_⟩
    exact refuses_of_halts lexed (Reading.halts_of_awaits exceeds digits awaits)

/-- A unit with an array, a pointer, and a function with objects in two scopes. -/
def gridSource : String :=
  "int grid[3]; char *name; int f(int n) \x7b char line[6]; \x7b double d; int row[2]; \x7d return n; \x7d"

/-- A function with pointers, so many that a word would count four bytes for them. -/
def wrappedSource : String :=
  "int f(void) \x7b \x7b int a, *b[1073741825]; \x7d \x7d"

/-- What stands before the pointers. -/
def wrappedFront : List Token :=
  [⟨.specifier .int, "int", ⟨1, 1⟩⟩, ⟨.identifier, "f", ⟨1, 5⟩⟩, ⟨.leftParen, "(", ⟨1, 6⟩⟩,
    ⟨.voidWord, "void", ⟨1, 7⟩⟩, ⟨.rightParen, ")", ⟨1, 11⟩⟩, ⟨.leftBrace, "\x7b", ⟨1, 13⟩⟩,
    ⟨.leftBrace, "\x7b", ⟨1, 15⟩⟩, ⟨.specifier .int, "int", ⟨1, 17⟩⟩, ⟨.identifier, "a", ⟨1, 21⟩⟩,
    ⟨.comma, ",", ⟨1, 22⟩⟩]

/-- Their declarator, and what stands behind it. -/
def wrappedStart : List Token :=
  [⟨.star, "*", ⟨1, 24⟩⟩, ⟨.identifier, "b", ⟨1, 25⟩⟩, ⟨.leftBracket, "[", ⟨1, 26⟩⟩,
    ⟨.integer, "1073741825", ⟨1, 27⟩⟩, ⟨.rightBracket, "]", ⟨1, 37⟩⟩, ⟨.semicolon, ";", ⟨1, 38⟩⟩,
    ⟨.rightBrace, "\x7d", ⟨1, 40⟩⟩, ⟨.rightBrace, "\x7d", ⟨1, 42⟩⟩, ⟨.done, "", ⟨1, 43⟩⟩]

theorem exceeds_wrapped :
    Declarator.Exceeds .int wrappedStart (.arrayTooLarge 1 "b") := by
  have same : tooLarge ⟨.identifier, "b", ⟨1, 25⟩⟩ ⟨.integer, "1073741825", ⟨1, 27⟩⟩ =
      .arrayTooLarge 1 "b" := by cbv
  rw [← same]
  exact .array (.more rfl (.none _)) rfl rfl rfl rfl (by decide)

theorem awaits_wrapped : Awaits .int .unit (wrappedFront ++ wrappedStart) wrappedStart :=
  .body (.nil _) rfl (.none _) rfl rfl (.nothing rfl) rfl rfl <|
    .statements (.nil _) (.nil _) <| .block rfl <|
      .declaration (.nil _) rfl (.later (.one (.scalar (.none _) rfl)) rfl)

set_option maxRecDepth 4000 in
/-- The objects of the first source have what they take, the second one does not compile. -/
theorem compile_sizes_grid :
    (∃ compilation, compile {} "grid.c" gridSource = .ok compilation ∧
      compilation.assembly = assemblyText "" (itemsFrom {} gridSource) ∧ Reserves {} gridSource ∧
      .common "grid" 12 ∈ itemsFrom {} gridSource) ∧
    tokensOf wrappedSource = .ok (wrappedFront ++ wrappedStart) ∧
    Declarator.Exceeds .int wrappedStart (.arrayTooLarge 1 "b") ∧
    Awaits .int .unit (wrappedFront ++ wrappedStart) wrappedStart ∧
    compile {} "wrapped.c" wrappedSource = .error (.arrayTooLarge 1 "b") := by
  obtain ⟨-, -, -, -, reserving, refusing⟩ := compile_sizes
  have reads : readsSilently {} gridSource = true := by cbv
  have lexed : tokensOf wrappedSource = .ok (wrappedFront ++ wrappedStart) := by cbv
  obtain ⟨compilation, compiled, -⟩ := compile_silent reads "grid.c"
  obtain ⟨written, reserves⟩ := reserving compiled
  have listed : ((tableFrom {} gridSource).symbolsOf unitScope).map (fun symbol =>
      (symbol.name, symbol.type)) = [("grid", .array .int 0 3), ("name", .scalar .char 1),
        ("f", .function .int 0 [.scalar .int 0] false)] := by cbv
  refine ⟨⟨compilation, compiled, written, reserves, ?_⟩, lexed, exceeds_wrapped, awaits_wrapped, ?_⟩
  · have present : (("grid", Ty.array .int 0 3) : String × Ty) ∈
        ((tableFrom {} gridSource).symbolsOf unitScope).map fun symbol => (symbol.name, symbol.type) := by
      simp [listed]
    obtain ⟨symbol, member, same⟩ := List.mem_map.mp present
    obtain ⟨named, typed⟩ := Prod.mk.inj same
    exact (reserves.globals rfl "grid" 12).mpr ⟨symbol, member, by rw [typed]; rfl, named,
      by rw [typed]; rfl⟩
  · obtain ⟨-, -, -, refused⟩ := refusing lexed exceeds_wrapped
    exact (refused awaits_wrapped {} "wrapped.c").enough (by decide)

end SmallC
