import SmallC.Proofs.Assembly.Names
import SmallC.Proofs.Definitions.Directives

/-! What stands before global names in assembly stands there everywhere, and has no influence on
anything else. -/

namespace SmallC

/-- The symbols that are known at the end of a source. -/
def tableFrom (options : Options) (source : String) : SymbolTable :=
  match tokensOf source with
  | .error _ => {}
  | .ok tokens =>
    (readUnit (generating options.checkOnly) tokens options.limit {}).reader.checker.symbols

/-- The symbols of a unit that have storage. -/
def SymbolTable.stored (table : SymbolTable) : List SymbolId :=
  (table.ids unitScope).filter fun symbol =>
    !((table.typeOf symbol).isFunction || (table.typeOf symbol).isError)

/-- The names that a site shows, where the symbols of the function have the given places. -/
structure Site.Shows (site : Site) (placed table : SymbolTable) : Prop where
  /-- What is called is named, and nothing else is named in that way. -/
  targets : ∀ instruction, .code instruction ∈ site.code → ∀ argument ∈ instruction.arguments,
    instruction.opcode = .call ↔ ∃ name, argument = .callee name
  /-- The names of what is called are those of the functions that a call in the source names. -/
  called : ∀ name, (.callee, name) ∈ site.code.flatMap Item.shown ↔
    ∃ callee arguments type progress, site = .node (.call callee arguments type) progress ∧
      table.nameOf callee = name
  /-- All other names are those of symbols of the unit, as operands in memory. -/
  memory : ∀ role name, (role, name) ∈ site.code.flatMap Item.shown → role ≠ .callee →
    role = .memory ∧ ∃ symbol type progress,
      (.identifier symbol type, progress) ∈ site.consumed ∧ symbol.scope = unitScope ∧
        table.nameOf symbol = name
  /-- Exactly the symbols of the unit are named where their values are read. -/
  reads : ∀ symbol type progress, (.identifier symbol type, progress) ∈ site.consumed →
    ((Expression.identifier symbol type).lowered progress).value =
      if symbol.scope = unitScope then .global (table.nameOf symbol)
      else .frame (placed.offsetOf symbol)

namespace Handed

/-- The global names that a function shows, in order: its own twice before its body, those of the
body, and its own twice behind it. -/
def shown (table : SymbolTable) (entry : Handed) : List (Role × String) :=
  let own := table.nameOf entry.function.symbol
  (.label, own) :: (.frame, own) ::
    ((codeAt entry.sites).flatMap Item.shown ++ [(.size, own), (.visible, own)])

variable {entry : Handed} {table : SymbolTable}

/-- At the end of a source its symbols still have their names. -/
theorem nameOf_kept (settled : entry.function.Settled entry.symbols)
    (keeps : entry.symbols.Keeps table) {symbol : SymbolId}
    (named : symbol ∈ entry.function.symbols) :
    table.nameOf symbol = entry.symbols.nameOf symbol := by
  obtain ⟨held, found⟩ := Option.isSome_iff_exists.mp (settled.known symbol named)
  have declared : entry.symbols.declared? symbol = some held.declaration :=
    congrArg (Option.map _) found
  rw [SymbolTable.nameOf_eq_declared, SymbolTable.nameOf_eq_declared, keeps symbol _ declared,
    declared]

/-- A symbol that a site is about has its name throughout. -/
theorem nameOf_site (settled : entry.function.Settled entry.symbols)
    (keeps : entry.symbols.Keeps table) {site : Site} (member : site ∈ entry.sites)
    {subject : Expression × Progress} (listed : subject ∈ site.subjects) {symbol : SymbolId}
    (named : symbol ∈ subject.1.symbols) :
    subject.2.symbols.nameOf symbol = table.nameOf symbol := by
  obtain ⟨inside, -⟩ := (entry.function.within_sites _ _ site member).subjects subject listed
  rw [nameOf_subject member listed,
    nameOf_kept settled keeps (Function.symbols_node inside named)]

/-- A name that is read at a site is lowered at a site of its own. -/
theorem reads_consumed (settled : entry.function.Settled entry.symbols)
    (keeps : entry.symbols.Keeps table) {site : Site} (member : site ∈ entry.sites)
    {symbol : SymbolId} {type : Ty} {progress : Progress}
    (read : (.identifier symbol type, progress) ∈ site.consumed) :
    ((Expression.identifier symbol type).lowered progress).value =
      if symbol.scope = unitScope then .global (table.nameOf symbol)
      else .frame (entry.placed.offsetOf symbol) := by
  obtain ⟨inside, stretch⟩ := Function.consumed_sites member _ read
  have lowered : .node (.identifier symbol type) progress ∈ entry.sites :=
    stretch.subset (by simp [Expression.sites])
  have known := Function.known_identifier settled inside
  have reaches := Function.reaches_identifier settled _ lowered known
  -- A name of the unit is read by that name, any other one from its place in the frame.
  split
  · next outer =>
    have named := (entry.function.alike_last entry.symbols entry.generated.nextLabel).declared symbol
    rw [reaches.named outer, SymbolTable.nameOf_eq_declared, named,
      ← SymbolTable.nameOf_eq_declared,
      nameOf_kept settled keeps (Function.symbols_node inside (by simp))]
  · next inner => exact (reaches.framed inner).1

/-- Every site of a function shows only what is called and read there. -/
theorem shows_site (settled : entry.function.Settled entry.symbols)
    (keeps : entry.symbols.Keeps table) :
    ∀ site ∈ entry.sites, site.Shows entry.placed table := by
  intro site member
  have proper := entry.function.proper_sites _ _ site member
  have mentions := proper.mentions
  have reads {symbol : SymbolId} {type : Ty} {progress : Progress}
      (read : (.identifier symbol type, progress) ∈ site.consumed) :=
    reads_consumed settled keeps member read
  have callee {callee : SymbolId} {arguments : List Expression} {type : Ty} {progress : Progress}
      (here : site = .node (.call callee arguments type) progress) :
      progress.symbols.nameOf callee = table.nameOf callee := by
    subst here
    exact nameOf_site settled keeps member
      (List.mem_singleton_self (Expression.call callee arguments type, progress)) (by simp)
  refine ⟨fun instruction listed argument named => (mentions _ listed argument named).call_iff,
    fun name => ⟨fun here => ?_, ?_⟩, fun role name here other => ?_,
    fun symbol type progress => reads⟩
  · obtain ⟨opcode, argument, names, found⟩ := proper.names here
    obtain ⟨-, symbol, arguments, type, progress, same, rfl⟩ | ⟨wrong, -⟩ := names.shown found
    · exact ⟨symbol, arguments, type, progress, same, (callee same).symm⟩
    · cases wrong
  · rintro ⟨symbol, arguments, type, progress, here, rfl⟩
    rw [← callee here, here]
    exact Site.callee_shown
  · obtain ⟨opcode, argument, names, found⟩ := proper.names here
    obtain ⟨same, -⟩ | ⟨memory, symbol, type, progress, read, global⟩ := names.shown found
    · exact absurd same other
    · refine ⟨memory, symbol, type, progress, read, ?_⟩
      -- A global operand is that of a symbol of the unit.
      rw [reads read] at global
      split at global
      · next outer => exact ⟨outer, Operand.global.inj global⟩
      · cases global

/-- What is written for a function shows its own name around those of its body. -/
theorem shown_written (settled : entry.function.Settled entry.symbols)
    (keeps : entry.symbols.Keeps table) :
    (entry.code ++ entry.constants).flatMap Item.shown = entry.shown table := by
  have own : entry.name = table.nameOf entry.function.symbol :=
    (nameOf_kept settled keeps List.mem_cons_self).symm
  -- Constants and their labels show no name, so all that is shown is in the code.
  have constants : entry.constants.flatMap Item.shown = [] := by
    refine List.flatMap_eq_nil_iff.mpr fun item listed => ?_
    rcases mem_literalItems listed with rfl | rfl | ⟨label, value, rfl⟩ <;> rfl
  have before (name : String) :
      (prologue name).flatMap Item.shown = [(.label, name), (.frame, name)] := rfl
  have behind (name : String) (exit : Label) (frame : Frame) :
      (epilogue name exit frame).flatMap Item.shown = [(.size, name), (.visible, name)] := rfl
  rw [List.flatMap_append, constants, code_sites, List.flatMap_append, List.flatMap_append, before,
    behind, own]
  simp [shown]

end Handed

namespace SymbolTable

/-- The symbols of a scope are those of its ids. -/
theorem map_declaration (table : SymbolTable) (scope : ScopeId) :
    (table.ids scope).map (fun symbol => (table.nameOf symbol, table.typeOf symbol)) =
      (table.symbolsOf scope).map Symbol.declaration := by
  refine table.map_ids scope 0 fun slot symbol _ found => ?_
  simp [nameOf, typeOf, symbol?, found, Symbol.declaration]

/-- The storage of a unit shows the names of its variables. -/
theorem shown_storage (table : SymbolTable) :
    ((table.symbolsOf unitScope).filterMap globalItem?).flatMap Item.shown =
      table.stored.map fun symbol => (.storage, table.nameOf symbol) := by
  rw [Checker.filterMap_globalItem?, ← map_declaration, List.filter_map, List.map_map, List.flatMap_map]
  exact List.map_eq_flatMap.symm

end SymbolTable

/-- A source compiles alike whatever is put before global names. -/
theorem compile_globalPrefix {options : Options} {file source : String} {compilation : Compilation}
    (compiled : compile options file source = .ok compilation) (globalPrefix : String) :
    compile { options with globalPrefix } file source =
      .ok { compilation with
        assembly := assemblyText globalPrefix (itemsFrom options source) } := by
  -- Nothing is read differently, because only the text of the assembly is put together with it.
  have again : ∃ assembly, compile { options with globalPrefix } file source =
      .ok { compilation with assembly } := by
    unfold compile at compiled ⊢
    cases lexed : tokensOf source with
    | error failure =>
      rw [lexed] at compiled
      cases compiled
    | ok tokens =>
      simp only [lexed, bind, Except.bind] at compiled ⊢
      split at compiled
      · cases compiled
      · cases compiled
        exact ⟨_, rfl⟩
  obtain ⟨assembly, compiled⟩ := again
  obtain ⟨globals, checker, concludes⟩ := compile_concludes compiled
  rw [compiled]
  have written : assembly = assemblyText globalPrefix (itemsFrom options source) :=
    concludes.assembly
  rw [written]

/-- What a function knows when it is handed on is known at the end of the source. -/
theorem keeps_tableFrom {options : Options} {file source : String} {compilation : Compilation}
    (compiled : compile options file source = .ok compilation) :
    ∀ entry ∈ handedOver options source, entry.symbols.Keeps (tableFrom options source) := by
  obtain ⟨tokens, lexed, done, handed, -⟩ := compile_outcome compiled
  unfold tableFrom
  rw [handed, lexed]
  dsimp only
  rw [← (readUnit_recording options.checkOnly tokens options.limit).1]
  exact (vouches_readUnit options.checkOnly tokens options.limit done).keeps

/-- The storage that is written is that of the symbols at the end of the source. -/
theorem shown_storageFrom {options : Options} {file source : String} {compilation : Compilation}
    (compiled : compile options file source = .ok compilation) :
    (storageFrom options source).flatMap Item.shown = if options.checkOnly then []
      else (tableFrom options source).stored.map fun symbol =>
        (.storage, (tableFrom options source).nameOf symbol) := by
  obtain ⟨tokens, lexed, -⟩ := compile_outcome compiled
  unfold storageFrom tableFrom
  rw [lexed]
  dsimp only
  split
  · rfl
  · exact SymbolTable.shown_storage _

/-- Whatever source compiles, its assembly is made of the same texts and global names whatever is put
before these. The names are those of the symbols at the end of the source: each function shows its own
around those that its calls and its operands in memory show, and the variables of the unit follow. -/
theorem compile_spelled {options : Options} {file source : String} {compilation : Compilation}
    (compiled : compile options file source = .ok compilation) :
    let table := tableFrom options source
    ∃ chunks, (∀ globalPrefix, compile { options with globalPrefix } file source =
        .ok { compilation with assembly := spell globalPrefix chunks }) ∧
      shownIn chunks = (writtenFrom options source).flatMap (Handed.shown table) ++
        (if options.checkOnly then []
          else table.stored.map fun symbol => (.storage, table.nameOf symbol)) ∧
      ∀ entry ∈ writtenFrom options source, ∀ site ∈ entry.sites,
        site.Shows entry.placed table := by
  intro table
  have settled := settled_handedOver compiled
  have keeps := keeps_tableFrom compiled
  have written : ∀ entry ∈ writtenFrom options source, entry ∈ handedOver options source := by
    unfold writtenFrom
    split
    · exact nofun
    · exact fun _ => id
  refine ⟨(itemsFrom options source).flatMap Item.chunks, fun globalPrefix => ?_, ?_, ?_⟩
  · rw [compile_globalPrefix compiled, assemblyText_eq_spell]
  · rw [shownIn_flatMap, itemsFrom, List.flatMap_append, List.flatMap_assoc,
      shown_storageFrom compiled]
    refine congrArg (· ++ _) (List.flatMap_congr fun entry member => ?_)
    have listed := written entry member
    exact Handed.shown_written (settled entry listed) (keeps entry listed)
  · intro entry member
    have listed := written entry member
    exact Handed.shows_site (settled entry listed) (keeps entry listed)

/-- A function that calls itself with a variable of the unit. -/
def underSource : String := "int n; int f(int a) { n = f(n); return a; }"

set_option maxRecDepth 4000 in
/-- It has the same assembly on both kinds of targets, but for the sign before its names. -/
theorem compile_spelled_under :
    ∃ compilation, compile { globalPrefix := "_" } "under.c" underSource = .ok compilation ∧
      (writtenFrom { globalPrefix := "_" } underSource).length = 1 ∧
      ∃ chunks, compilation.assembly = spell "_" chunks ∧
        compile {} "under.c" underSource = .ok { compilation with assembly := spell "" chunks } ∧
        shownIn chunks = [(.label, "f"), (.frame, "f"), (.memory, "n"), (.callee, "f"),
          (.memory, "n"), (.size, "f"), (.visible, "f"), (.storage, "n")] := by
  have reads : readsSilently { globalPrefix := "_" } underSource = true := by cbv
  obtain ⟨compilation, compiled, -⟩ := compile_silent reads "under.c"
  obtain ⟨chunks, spelled, shown, -⟩ := compile_spelled compiled
  refine ⟨compilation, compiled, by cbv, chunks, ?_, spelled "", ?_⟩
  · have same := compiled.symm.trans (spelled "_")
    exact congrArg Compilation.assembly (Except.ok.inj same)
  · rw [shown]
    cbv

end SmallC
