import SmallC.Proofs.Renaming.Checking
import SmallC.Proofs.Renaming.Lowering
import SmallC.Proofs.Scoping.Naming

/-! Renaming units: the assembly of a source shows no names but those that the unit itself declares. -/

namespace SmallC

namespace Function

variable {function : Function} {table : SymbolTable}

/-- Only the unit declares what can be called. -/
theorem unit_of_callee (settled : function.Settled table) {callee : SymbolId} {specifier : Specifier}
    {indirection : Nat} {parameters : List Ty} {variadic : Bool}
    (declared : table.typeOf callee = .function specifier indirection parameters variadic) :
    callee.scope = unitScope := by
  by_contra inner
  unfold SymbolTable.typeOf at declared
  cases found : table.symbol? callee with
  | none => simp [found] at declared
  | some held =>
    have type : held.type = .function specifier indirection parameters variadic := by
      simpa [found] using declared
    -- A function takes no storage, and what is declared inside of functions does.
    have stored := settled.ready.stored _ inner held (List.mem_of_getElem? found)
    rw [type] at stored
    exact absurd stored (Nat.lt_irrefl 0)

/-- Where a name of the function's own is used, its symbol has a place. -/
theorem placed_sites (settled : function.Settled table) (nextLabel : Nat) {site : Site}
    (member : site ∈ function.sites table nextLabel) {subject : Expression × Progress}
    (listed : subject ∈ site.subjects) {symbol : SymbolId} (named : symbol ∈ subject.1.symbols)
    (inner : symbol.scope ≠ unitScope) : subject.2.symbols.offsetOf symbol ≠ 0 := by
  -- The symbol is already where it will be when the function has been lowered.
  obtain ⟨around, same⟩ := sees_sites settled nextLabel site member subject listed symbol named
  have inside := ((function.within_sites table nextLabel site member).subjects subject listed).1
  have known := (alike_last function table nextLabel).known
    (settled.known symbol (symbols_node inside named))
  have offset : subject.2.symbols.offsetOf symbol =
      (function.last table nextLabel).symbols.offsetOf symbol := by
    unfold SymbolTable.offsetOf SymbolTable.symbol?
    rw [same]
  rw [offset]
  exact (((housed_last settled nextLabel).reaches around known).framed inner).2

end Function

variable {rename : String → String}

/-- A symbol of the unit keeps its name if all names that the unit ends up with stay. -/
theorem SymbolTable.Keeps.fixed {old new : SymbolTable} (keeps : old.Keeps new)
    (stay : ∀ name ∈ new.namesOf unitScope, rename name = name) {symbol : SymbolId}
    (unit : symbol.scope = unitScope) : old.Fixed rename symbol := by
  intro held found
  -- The declaration is kept, so the name is still there in the end.
  have known : old.declared? symbol = some held.declaration := congrArg (Option.map _) found
  have kept := keeps symbol _ known
  rw [declared_eq_getElem, unit] at kept
  obtain ⟨other, member, same⟩ := List.mem_map.mp (List.mem_of_getElem? kept)
  have name : other.name = held.name := congrArg Prod.fst same
  exact name ▸ stay other.name (List.mem_map_of_mem member)

/-- A table in which only places have changed stays under the given names. -/
theorem SymbolTable.Alike.spelled {names : Set String} {old new : SymbolTable} (alike : old.Alike new)
    (spelled : old.Spelled names) : new.Spelled names := by
  intro scope symbol member
  obtain ⟨known, present, same⟩ := alike.mem member
  have name : known.name = symbol.name := congrArg Prod.fst same
  exact name ▸ spelled scope known present

namespace Handed

/-- All names that a function puts into the code stay. -/
structure Anchored (rename : String → String) (entry : Handed) : Prop where
  /-- Its own name stays. -/
  called : entry.symbols.Fixed rename entry.function.symbol
  /-- So do those that its body puts there. -/
  sites : ∀ site ∈ entry.sites, site.Anchored rename

variable {entry : Handed} {table : SymbolTable}

/-- A function that is typed puts no names into the code but those of the unit. -/
theorem anchored (settled : entry.function.Settled entry.symbols)
    (welltyped : entry.function.Welltyped entry.symbols) (keeps : entry.symbols.Keeps table)
    (stay : ∀ name ∈ table.namesOf unitScope, rename name = name) : entry.Anchored rename := by
  refine ⟨keeps.fixed stay settled.unit, ?_⟩
  intro site member subject listed node below
  obtain ⟨inside, advances⟩ := (entry.function.within_sites _ _ site member).subjects subject listed
  -- Lowering changes places only, so the unit's symbols have the names of the end throughout.
  have alike := (entry.function.alike_entry entry.symbols entry.generated.nextLabel).trans
    advances.alike
  have fixed {symbol : SymbolId} (unit : symbol.scope = unitScope) :
      subject.2.symbols.Fixed rename symbol := by
    refine SymbolTable.Keeps.fixed (fun id declaration known => ?_) stay unit
    exact keeps id declaration (alike.declared id ▸ known)
  cases node with
  | identifier symbol type =>
    -- What is not the unit's has a place, and then its name is not used.
    have named : symbol ∈ subject.1.symbols := List.mem_filterMap.mpr ⟨_, below, rfl⟩
    intro unplaced
    by_contra moved
    exact Function.placed_sites settled _ member listed named (fun unit => moved (fixed unit)) unplaced
  | call callee arguments type =>
    obtain ⟨_, _, _, _, typed⟩ := welltyped
    cases typed.nodes _ (Function.nodes_subset inside below) with
    | call _ declared => exact fixed (Function.unit_of_callee settled declared)
  | integer | real | string | unary | step | binary => trivial

end Handed

/-- Whether functions are written or not, what is written is the same under other names. -/
theorem generating_renamed (checkOnly : Bool) {entry : Handed} (anchored : entry.Anchored rename) :
    generating checkOnly entry.function (entry.symbols.renamed rename) entry.generated =
      ((generating checkOnly entry.function entry.symbols entry.generated).1.renamed rename,
        (generating checkOnly entry.function entry.symbols entry.generated).2) := by
  unfold generating
  split
  · rfl
  · exact generateFunction_renamed anchored.called anchored.sites

/-- Functions that are written in the same way leave the same symbols under other names. -/
theorem Pairing.renamed_recording (rename : String → String) (names : Set String)
    (checkOnly : Bool) : (Pairing.renamed rename names).ConsumesWhere
      (fun function symbols output => Handed.Anchored rename ⟨function, symbols, output.1⟩)
      (recording checkOnly) (recording checkOnly) fun output result => result.1 = output.1 := by
  rintro left right function _ ⟨_, handed⟩ ⟨generated, others⟩ alike rfl rfl anchored
  -- The function is written in the same way, so the records agree but for the table.
  have written := generating_renamed checkOnly anchored
  have spelled := (generating_alike checkOnly function left.symbols generated).spelled alike.spelled
  unfold recording
  rw [alike.symbols]
  dsimp only at written ⊢
  rw [written]
  exact ⟨rfl, alike.adopt spelled⟩

/-- Functions that have been recorded stay recorded. -/
theorem recorded_subset (checkOnly : Bool) (clock : List Token) (reader : Reader)
    (output : Generated × List Handed) :
    output.2 ⊆ (readDeclarations (recording checkOnly) clock reader output).output.2 := by
  induction clock generalizing reader output with
  | nil =>
    rw [readDeclarations]
    split <;> exact List.Subset.refl _
  | cons _ clock ih =>
    rw [readDeclarations]
    split
    · exact List.Subset.refl _
    · cases Reading.topLevel reader with
      | error => exact List.Subset.refl _
      | ok found next =>
        -- A record is put behind those that are there, and nothing is taken away.
        cases found with
        | none => exact ih next output
        | some function => exact fun entry member => ih _ _ (List.mem_append_left _ member)

/-- What holds of all functions that are recorded in the end holds of each as it is handed on. -/
theorem handsOn_recording {good : Handed → Prop} (checkOnly : Bool) (clock : List Token)
    (reader : Reader) (output : Generated × List Handed)
    (every : ∀ entry ∈ (readDeclarations (recording checkOnly) clock reader output).output.2,
      good entry) :
    HandsOn (recording checkOnly) (fun function symbols output => good ⟨function, symbols, output.1⟩)
      clock reader output := by
  induction clock generalizing reader output with
  | nil => trivial
  | cons _ clock ih =>
    intro further
    rw [readDeclarations, if_neg further] at every
    -- What the last record holds holds of the function that is handed on now, which is in it.
    refine ⟨fun next read => ?_, fun function next read => ⟨?_, ?_⟩⟩ <;> rw [read] at every
    · exact ih next output every
    · exact every _ (recorded_subset checkOnly clock _ _ (by simp))
    · exact ih _ _ every

/-- Compile the tokens of a source text of the given file. -/
def compileTokens (options : Options) (file : String) (tokens : List Token) :
    Except Failure Compilation :=
  let outcome := readUnit (generating options.checkOnly) tokens options.limit {}
  match outcome.failure? with
  | some failure => .error failure
  | none =>
    let checker := outcome.reader.checker
    let generated :=
      if options.checkOnly then outcome.output
      else generateGlobals unitScope checker.symbols outcome.output
    .ok {
      assembly := assemblyText options.globalPrefix generated.items
      diagnostics := checker.reports.map (·.diagnostic file) }

/-- A source is compiled by compiling its tokens. -/
theorem compile_eq_bind (options : Options) (file source : String) :
    compile options file source = (tokensOf source).bind (compileTokens options file) := by
  unfold compile compileTokens
  cases tokensOf source <;> rfl

/-- The names that a unit declares outside of its functions: those of functions and of global
variables. -/
def unitNames (options : Options) (tokens : List Token) : List String :=
  (readUnit (generating options.checkOnly) tokens options.limit {}).reader.checker.symbols.namesOf
    unitScope

/-- A record of the functions changes nothing about a unit. -/
theorem readUnit_recording (checkOnly : Bool) (tokens : List Token) (limit : Nat) :
    let plain := readUnit (generating checkOnly) tokens limit {}
    let recorded := readUnit (recording checkOnly) tokens limit ({}, [])
    recorded.reader = plain.reader ∧ recorded.output.1 = plain.output ∧
      recorded.failure? = plain.failure? :=
  readDeclarations_recording checkOnly _ _ _ _

/-- What a compilation of tokens has read and written, with a record of the functions. -/
theorem compileTokens_eq_ok {options : Options} {file : String} {tokens : List Token}
    {compilation : Compilation} :
    compileTokens options file tokens = .ok compilation ↔
      let outcome := readUnit (recording options.checkOnly) tokens options.limit ({}, [])
      let generated :=
        if options.checkOnly then outcome.output.1
        else generateGlobals unitScope outcome.reader.checker.symbols outcome.output.1
      outcome.failure? = none ∧
        ⟨assemblyText options.globalPrefix generated.items,
          outcome.reader.checker.reports.map (·.diagnostic file)⟩ = compilation := by
  -- Recording functions changes neither what is read nor what is written.
  obtain ⟨reader, output, failure⟩ := readUnit_recording options.checkOnly tokens options.limit
  dsimp only
  rw [reader, output, failure]
  unfold compileTokens
  dsimp only
  split <;> simp_all

/-- The storage of global variables is written in the same way if their names stay. -/
theorem generateGlobals_renamed {rename : String → String} {table : SymbolTable}
    (stay : ∀ name ∈ table.namesOf unitScope, rename name = name) (generated : Generated) :
    generateGlobals unitScope (table.renamed rename) generated =
      generateGlobals unitScope table generated := by
  -- Renaming leaves the symbols of the unit as they are if it leaves their names.
  have same : (table.renamed rename).symbolsOf unitScope = table.symbolsOf unitScope := by
    refine (table.symbolsOf_mapped _ _).trans ((List.map_congr_left fun symbol member => ?_).trans
      (List.map_id _))
    have fixed := stay symbol.name (List.mem_map_of_mem member)
    unfold Symbol.renamed
    rw [fixed]
    rfl
  unfold generateGlobals
  rw [same]

/-- Whatever the names in a list of tokens, their renaming corresponds to them token by token. -/
theorem forall₂_renamed (rename : String → String) (tokens : List Token) :
    List.Forall₂ (Pairing.renamed rename (spellings tokens)).token tokens
      (tokens.map (Token.renamed rename)) := by
  rw [List.forall₂_map_right_iff, List.forall₂_same]
  exact fun token member => ⟨rfl, fun named => ⟨token, member, named, rfl⟩⟩

/-- Tokens under other names are read alike, and what is written of their functions is the same, if
the names that these put into the code stay. -/
theorem ends_renamed {rename : String → String} {tokens : List Token} (checkOnly : Bool) (limit : Nat)
    (distinct : (spellings tokens).InjOn rename)
    (anchored : ∀ entry ∈ (readUnit (recording checkOnly) tokens limit ({}, [])).output.2,
      entry.Anchored rename) :
    (Pairing.renamed rename (spellings tokens)).Ends (fun output result => result.1 = output.1)
      (readUnit (recording checkOnly) tokens limit ({}, []))
      (readUnit (recording checkOnly) (tokens.map (Token.renamed rename)) limit ({}, [])) := by
  have strict := Pairing.strict_renamed distinct
  have readers := Pairing.Readers.before strict.toLawful (forall₂_renamed rename tokens)
    (strict.same limit)
  have handed := handsOn_recording checkOnly (Reader.before tokens limit {}).remaining
    (Reader.before tokens limit {}) ({}, []) anchored
  have written := Pairing.renamed_recording rename (spellings tokens) checkOnly
  -- Names have nothing to do with levels, so neither side runs out of them alone.
  exact (Pairing.ends_readDeclarations strict.toLawful written readers.remaining readers rfl
    handed).resolve_left fun spent => spent.1

/-- Whatever tokens compile without a diagnostic, they do so under other names with the same
assembly, as long as different names stay different and those of functions and of global variables
stay as they are; and so does every source text with these tokens. -/
theorem compile_renamed {options : Options} {file : String} {tokens : List Token}
    {compilation : Compilation} (compiled : compileTokens options file tokens = .ok compilation)
    (silent : compilation.diagnostics = []) {rename : String → String}
    (distinct : (spellings tokens).InjOn rename)
    (stay : ∀ name ∈ unitNames options tokens, rename name = name) :
    compileTokens options file (tokens.map (Token.renamed rename)) = .ok compilation ∧
      ∀ source, tokensOf source = .ok (tokens.map (Token.renamed rename)) →
        compile options file source = .ok compilation := by
  have same : compileTokens options file (tokens.map (Token.renamed rename)) = .ok compilation := by
    obtain ⟨done, rfl⟩ := compileTokens_eq_ok.mp compiled
    have quiet := List.map_eq_nil_iff.mp silent
    have final := (readUnit_recording options.checkOnly tokens options.limit).1
    unfold unitNames at stay
    rw [← final] at stay
    have vouches := vouches_readUnit options.checkOnly tokens options.limit done
    have settled := settled_readUnit options.checkOnly tokens options.limit done
    have ends := ends_renamed options.checkOnly options.limit distinct fun entry member =>
      Handed.anchored (settled entry member) (vouches.typed quiet entry member)
        (vouches.keeps entry member) stay
    have alike := ends.checker done
    have silence := List.eq_nil_of_length_eq_zero (alike.reports.trans (congrArg List.length quiet))
    refine compileTokens_eq_ok.mpr ⟨ends.done done, ?_⟩
    rw [ends.output, alike.symbols, generateGlobals_renamed stay, silence, quiet]
  refine ⟨same, fun source lexed => ?_⟩
  rw [compile_eq_bind, lexed]
  exact same

/-- A function whose parameter is hidden by a variable of a block. -/
def shadeSource : String := "int n; int f(int a) { int b; { int a; a = n; b = a; } return a + b; }"

/-- The function with the names of its parameter and of its variable exchanged. -/
def tintSource : String := "int n; int f(int b) { int a; { int b; b = n; a = b; } return b + a; }"

set_option maxRecDepth 4000 in
/-- Both functions have the same assembly. -/
theorem compile_renamed_shade : ∃ tokens compilation,
    tokensOf shadeSource = .ok tokens ∧ compile {} "shade.c" shadeSource = .ok compilation ∧
      compilation.diagnostics = [] ∧ (spellings tokens).InjOn (Equiv.swap "a" "b") ∧
      (∀ name ∈ unitNames {} tokens, Equiv.swap "a" "b" name = name) ∧
      compile {} "shade.c" tintSource = .ok compilation := by
  have lexed : tokensOf shadeSource = .ok ((tokensOf shadeSource).toOption.getD []) := by cbv
  have tinted : tokensOf tintSource = .ok (((tokensOf shadeSource).toOption.getD []).map
      (Token.renamed (Equiv.swap "a" "b"))) := by cbv
  have read : (readUnit (generating false) ((tokensOf shadeSource).toOption.getD []) defaultLimit
      {}).failure? = none := by cbv
  have reported : (readUnit (generating false) ((tokensOf shadeSource).toOption.getD []) defaultLimit
      {}).reader.checker.reports.length = 0 := by cbv
  have names : unitNames {} ((tokensOf shadeSource).toOption.getD []) = ["n", "f"] := by cbv
  generalize (tokensOf shadeSource).toOption.getD [] = tokens at lexed tinted read reported names
  obtain ⟨compilation, compiled, count⟩ := @compile_of_read {} _ _ lexed "shade.c" read
  have silent := List.eq_nil_of_length_eq_zero (count.trans reported)
  have spelled : compileTokens {} "shade.c" tokens = .ok compilation := by
    rw [← compiled, compile_eq_bind, lexed]
    rfl
  have distinct : (spellings tokens).InjOn (Equiv.swap "a" "b") := (Equiv.injective _).injOn
  have stay : ∀ name ∈ unitNames {} tokens, Equiv.swap "a" "b" name = name := by
    rw [names]
    decide
  exact ⟨tokens, compilation, lexed, compiled, silent, distinct, stay,
    (compile_renamed spelled silent distinct stay).2 tintSource tinted⟩

end SmallC
