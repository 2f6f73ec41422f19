import SmallC.Proofs.Derivations.Recognition
import SmallC.Proofs.Scoping.Units

/-! Naming: every name of a source reaches the storage of the symbol that the source means. -/

namespace SmallC

namespace Handed

/-- The sites of a function as it is written. -/
def sites (entry : Handed) : List Site :=
  entry.function.sites entry.symbols entry.generated.nextLabel

/-- The symbols of a function that has been written, each with its place. -/
def placed (entry : Handed) : SymbolTable :=
  (entry.function.last entry.symbols entry.generated.nextLabel).symbols

/-- A function has the names of its definition, and the generator finds the storage of each. -/
structure Named (entry : Handed) (usage : Definition × List Use) : Prop
    extends entry.Follows usage where
  /-- The code that is written for the body is that of the sites. -/
  written : ∃ before after,
    (generateFunction entry.function entry.symbols entry.generated).2.items =
      before ++ codeAt entry.sites ++ after
  /-- The generator asks for symbols and scopes that the table has at that point. -/
  present : ∀ site ∈ entry.sites,
    (∀ subject ∈ site.subjects, ∀ symbol ∈ subject.1.symbols,
      (subject.2.symbols.symbol? symbol).isSome) ∧
    ∀ block ∈ site.blocks, block.1 < block.2.symbols.scopes.length
  /-- Every name in the body is lowered at a site. -/
  lowered : ∀ symbol type, .identifier symbol type ∈ entry.function.nodes →
    ∃ progress, .node (.identifier symbol type) progress ∈ entry.sites
  /-- Wherever a name is lowered, it reaches the storage of its symbol. -/
  reaches : ∀ symbol type progress, .node (.identifier symbol type) progress ∈ entry.sites →
    entry.function.Reaches entry.placed symbol
      ((Expression.identifier symbol type).lowered progress).value

end Handed

namespace Function

variable {function : Function} {table : SymbolTable}

/-- The symbols of a function's nodes are those of the function. -/
theorem symbols_node {node : Expression} (inside : node ∈ function.nodes) :
    node.symbols ⊆ function.symbols := by
  intro symbol named
  rw [symbols, ← Statement.symbols_expressionsOfList, ← Expression.filterMap_nodesOfList]
  obtain ⟨owner, below, names⟩ := List.mem_filterMap.mp named
  exact List.mem_cons_of_mem _ (List.mem_filterMap.mpr ⟨owner, nodes_subset inside below, names⟩)

/-- Nothing is asked for that is not in the table. -/
theorem present_sites (settled : function.Settled table) (nextLabel : Nat) :
    ∀ site ∈ function.sites table nextLabel,
      (∀ subject ∈ site.subjects, ∀ symbol ∈ subject.1.symbols,
        (subject.2.symbols.symbol? symbol).isSome) ∧
      ∀ block ∈ site.blocks, block.1 < block.2.symbols.scopes.length := by
  have entered := function.alike_entry table nextLabel
  -- A symbol is there when the body starts, and no part of the body takes one away.
  intro site member
  have within := function.within_sites table nextLabel site member
  refine ⟨fun subject listed symbol named => ?_, fun block listed => ?_⟩
  · obtain ⟨inside, advances⟩ := within.subjects subject listed
    exact (entered.trans advances.alike).known (settled.known symbol (symbols_node inside named))
  · obtain ⟨inside, advances⟩ := within.blocks block listed
    rw [(entered.trans advances.alike).opened]
    exact settled.opened block.1 (List.mem_cons_of_mem _ inside)

end Function

/-- A function that follows its definition has all its names in their places. -/
theorem Handed.Follows.named {entry : Handed} {usage : Definition × List Use}
    (follows : entry.Follows usage) : entry.Named usage where
  toFollows := follows
  written := by
    rw [generateFunction_eq, sites, Function.codeAt_sites]
    refine ⟨entry.generated.items ++ prologue (entry.symbols.nameOf entry.function.symbol), ?_, ?_⟩
    · exact epilogue (entry.symbols.nameOf entry.function.symbol) ⟨entry.generated.nextLabel⟩
        (entry.function.last entry.symbols entry.generated.nextLabel).frame ++
          literalItems (entry.function.last entry.symbols entry.generated.nextLabel).literals
    · simp
  present := Function.present_sites follows.settled _
  lowered _ _ inside := Function.identifier_sites inside _
  reaches symbol type progress used := by
    refine Function.reaches_identifier follows.settled _ used ?_
    have within := entry.function.within_sites entry.symbols _ _ used
    obtain ⟨inside, _⟩ := within.subjects (.identifier symbol type, progress)
      (List.mem_singleton_self _)
    exact follows.settled.known symbol (Function.symbols_node inside (by simp))

/-- Where a source has tokens and they are read to their end, it compiles. -/
theorem compile_of_read {options : Options} {source : String} {tokens : List Token}
    (lexed : tokensOf source = .ok tokens) (file : String)
    (done : (readUnit (generating options.checkOnly) tokens options.limit {}).failure? = none) :
    ∃ compilation, compile options file source = .ok compilation ∧
      compilation.diagnostics.length = (readUnit (generating options.checkOnly) tokens
        options.limit {}).reader.checker.reports.length := by
  unfold compile
  simp only [lexed, bind, Except.bind, done]
  exact ⟨_, rfl, List.length_map _⟩

/-- Whether a source is read to its end without a report. -/
def readsSilently (options : Options) (source : String) : Bool :=
  match tokensOf source with
  | .error _ => false
  | .ok tokens =>
    let outcome := readUnit (generating options.checkOnly) tokens options.limit {}
    outcome.failure?.isNone && outcome.reader.checker.reports.isEmpty

/-- Such a source compiles without a diagnostic. -/
theorem compile_silent {options : Options} {source : String}
    (reads : readsSilently options source = true) (file : String) :
    ∃ compilation, compile options file source = .ok compilation ∧
      compilation.diagnostics = [] := by
  unfold readsSilently at reads
  cases lexed : tokensOf source with
  | error failure => simp [lexed] at reads
  | ok tokens =>
    simp only [lexed, Bool.and_eq_true, Option.isNone_iff_eq_none, List.isEmpty_iff] at reads
    obtain ⟨compilation, compiled, count⟩ := compile_of_read lexed file reads.1
    -- No name is missed and no fault is found, so nothing is counted.
    rw [reads.2] at count
    exact ⟨compilation, compiled, List.eq_nil_of_length_eq_zero count⟩

/-- Whatever tokens are read to their end, functions are handed on in the order of the derivation of
what a reader sees, each with the names of its definition. -/
theorem follows_readUnit (checkOnly : Bool) (tokens : List Token) (limit : Nat)
    (done : (readUnit (recording checkOnly) tokens limit ({}, [])).failure? = none) :
    ∃ globals, DerivesUnit (Reader.before tokens limit {}).outlook.tokens globals ∧
      List.Forall₂ Handed.Follows (readUnit (recording checkOnly) tokens limit ({}, [])).output.2
        (Global.usages globals .start).1 := by
  have fresh : (Reader.before tokens limit {}).checker.unplaced = {} := rfl
  -- What was handed on while reading is what checking the derivation hands on.
  obtain ⟨globals, derived, checked⟩ := readDeclarations_derives (recording checkOnly)
    (Reader.before tokens limit {}).remaining (Reader.before tokens limit {}) ({}, []) done
  rw [fresh] at checked
  have ⟨last, _, run⟩ := derived
  obtain ⟨more, written, follows⟩ := Global.follows_elaborateAll checkOnly run {} {} []
    Checker.between_start
  have same : (readUnit (recording checkOnly) tokens limit ({}, [])).output.2 = more := by
    rw [← List.nil_append more, ← written, checked]
    rfl
  exact ⟨globals, derived, same ▸ follows⟩

/-- Every function of tokens that are read to their end can be lowered. -/
theorem settled_readUnit (checkOnly : Bool) (tokens : List Token) (limit : Nat)
    (done : (readUnit (recording checkOnly) tokens limit ({}, [])).failure? = none) :
    ∀ entry ∈ (readUnit (recording checkOnly) tokens limit ({}, [])).output.2,
      entry.function.Settled entry.symbols := by
  obtain ⟨globals, -, follows⟩ := follows_readUnit checkOnly tokens limit done
  intro entry member
  obtain ⟨index, within, rfl⟩ := List.mem_iff_getElem.mp member
  exact (follows.get within (follows.length_eq ▸ within)).settled

/-- Whatever source compiles, its functions are handed on in the order of its derivation, each with
the names of its definition. -/
theorem follows_handedOver {options : Options} {file source : String} {compilation : Compilation}
    (compiled : compile options file source = .ok compilation) :
    ∃ tokens globals, tokensOf source = .ok tokens ∧ DerivesUnit tokens globals ∧
      List.Forall₂ Handed.Follows (handedOver options source) (Global.usages globals .start).1 := by
  obtain ⟨tokens, lexed, done, handed, -⟩ := compile_outcome compiled
  obtain ⟨globals, derived, follows⟩ := follows_readUnit options.checkOnly tokens options.limit done
  have start := stage_before (ended_tokensOf lexed) options.limit
  have remaining : (Reader.before tokens options.limit {}).remaining = tokens :=
    congrArg Stage.tokens start
  rw [Reader.outlook_eq (by rw [remaining]; exact ended_tokensOf lexed), start] at derived
  exact ⟨tokens, globals, lexed, derived, handed ▸ follows⟩

/-- Every function of a source that compiles can be lowered. -/
theorem settled_handedOver {options : Options} {file source : String} {compilation : Compilation}
    (compiled : compile options file source = .ok compilation) :
    ∀ entry ∈ handedOver options source, entry.function.Settled entry.symbols := by
  obtain ⟨tokens, -, done, handed, -⟩ := compile_outcome compiled
  rw [handed]
  exact settled_readUnit options.checkOnly tokens options.limit done

/-- Whatever source compiles, with diagnostics or without, its functions are handed on in the order
of the one derivation of the source, and in each of them every name has the symbol that the scopes
open at that point of the source give it, and reaches the storage of that symbol. -/
theorem compile_names {options : Options} {file source : String} {compilation : Compilation}
    (compiled : compile options file source = .ok compilation) :
    ∃ tokens globals, tokensOf source = .ok tokens ∧ DerivesUnit tokens globals ∧
      (∀ others, DerivesUnit tokens others → others = globals) ∧
      List.Forall₂ Handed.Named (handedOver options source) (Global.usages globals .start).1 := by
  obtain ⟨tokens, globals, lexed, derived, follows⟩ := follows_handedOver compiled
  exact ⟨tokens, globals, lexed, derived, fun others other => other.unique derived,
    follows.imp fun _ _ found => found.named⟩

/-- A function with a block whose variable is called like a parameter, and with a name that nothing
declares. -/
def nestSource : String := "int f(int a) { { int a; a = u; } return a; }"

/-- The unknown name is reported, and the function is handed on with its names all the same. -/
theorem compile_names_nest :
    (∃ compilation, compile { checkOnly := true } "nest.c" nestSource = .ok compilation ∧
      compilation.diagnostics.length = 1) ∧
    (handedOver { checkOnly := true } nestSource).length = 1 ∧
    ∃ tokens globals, tokensOf nestSource = .ok tokens ∧ DerivesUnit tokens globals ∧
      (∀ others, DerivesUnit tokens others → others = globals) ∧
      List.Forall₂ Handed.Named (handedOver { checkOnly := true } nestSource)
        (Global.usages globals .start).1 := by
  have lexed : tokensOf nestSource = .ok ((tokensOf nestSource).toOption.getD []) := by cbv
  have read : (readUnit (generating true) ((tokensOf nestSource).toOption.getD []) defaultLimit
      {}).failure? = none := by cbv
  have reported : (readUnit (generating true) ((tokensOf nestSource).toOption.getD []) defaultLimit
      {}).reader.checker.reports.length = 1 := by cbv
  obtain ⟨compilation, compiled, count⟩ :=
    @compile_of_read { checkOnly := true } _ _ lexed "nest.c" read
  exact ⟨⟨compilation, compiled, count.trans reported⟩, by cbv, compile_names compiled⟩

end SmallC
