import SmallC.Proofs.Assembly.Labels
import SmallC.Proofs.Definitions.Accounts
import SmallC.Proofs.Frames.Framing
import SmallC.Proofs.Renaming.Units

/-! Units: what the end of a source leaves of the declarations and definitions in it. -/

namespace SmallC

/-- Bytes that an object of the type takes, however many they are. -/
def Ty.bytes : Ty → Nat
  | .error | .function .. => 0
  | .scalar specifier indirection => elementSize specifier indirection
  | .array specifier indirection length => length * elementSize specifier indirection

/-- The storage that is written for the variables of a unit, behind its functions. -/
def storageFrom (options : Options) (source : String) : List Item :=
  match tokensOf source with
  | .error _ => []
  | .ok tokens =>
    let reader := (readUnit (generating options.checkOnly) tokens options.limit {}).reader
    if options.checkOnly then []
    else (reader.checker.symbols.symbolsOf unitScope).filterMap globalItem?

/-- All that is written for a source: its functions, each with its constants behind it, and the
storage of its variables. -/
def itemsFrom (options : Options) (source : String) : List Item :=
  (writtenFrom options source).flatMap (fun entry => entry.code ++ entry.constants) ++
    storageFrom options source

/-- What the end of a source leaves: a derivation, and a checker that accounts for it and vouches
for the functions that have been handed on. -/
structure Concludes (options : Options) (file source : String) (compilation : Compilation)
    (globals : List Global) (checker : Checker) : Prop where
  /-- The source has one derivation. -/
  derived : ∃ tokens, tokensOf source = .ok tokens ∧ DerivesUnit tokens globals ∧
    ∀ others, DerivesUnit tokens others → others = globals
  /-- Its functions are handed on in order. -/
  follows : List.Forall₂ Handed.Follows (handedOver options source)
    (Global.usages globals .start).1
  /-- All that is declared and defined is accounted for. -/
  accounts : checker.Accounts (declaredIn globals) (definedNames globals)
  /-- Without a report, all functions are typed. -/
  vouches : checker.Vouches (handedOver options source)
  /-- Variables have storage. -/
  storage : storageFrom options source = if options.checkOnly then []
    else (checker.symbols.symbolsOf unitScope).filterMap globalItem?
  /-- It is written behind the functions. -/
  assembly : compilation.assembly = assemblyText options.globalPrefix (itemsFrom options source)
  /-- Every report is a diagnostic. -/
  diagnostics : compilation.diagnostics = checker.reports.map (·.diagnostic file)

/-- Whatever source compiles is concluded. -/
theorem compile_concludes {options : Options} {file source : String} {compilation : Compilation}
    (compiled : compile options file source = .ok compilation) :
    ∃ globals checker, Concludes options file source compilation globals checker := by
  obtain ⟨tokens, lexed, done, handed, diagnostics⟩ := compile_outcome compiled
  obtain ⟨others, globals, again, listed, follows⟩ := follows_handedOver compiled
  obtain rfl := Except.ok.inj (lexed.symm.trans again)
  have ended := ended_tokensOf lexed
  let outcome := readUnit (recording options.checkOnly) tokens options.limit ({}, [])
  have final : outcome.reader =
      (readUnit (generating options.checkOnly) tokens options.limit {}).reader :=
    (readUnit_recording options.checkOnly tokens options.limit).1
  have storage : storageFrom options source = if options.checkOnly then []
      else (outcome.reader.checker.symbols.symbolsOf unitScope).filterMap globalItem? := by
    unfold storageFrom
    rw [lexed, final]
  -- Writing a function changes the table only in its places.
  have alike (function : Function) (symbols : SymbolTable) (output : Generated × List Handed) :
      symbols.Alike (recording options.checkOnly function symbols output).1 :=
    generating_alike options.checkOnly function symbols output.1
  refine ⟨globals, outcome.reader.checker, ?_⟩
  exact {
    derived := ⟨tokens, lexed, listed, fun others other => other.unique listed⟩
    follows
    accounts := by
      -- What the reader has checked is what the derivation declares, but for places.
      have checked := readUnit_checks (recording options.checkOnly) ended listed done
      have accounts := Global.accounts_elaborateAll alike globals ({}, []) Checker.accounts_start rfl
      rw [checked] at accounts
      exact accounts.of_unplaced
    vouches := handed ▸ vouches_readUnit options.checkOnly tokens options.limit done
    storage
    assembly := by
      rw [compile_eq_bind, lexed] at compiled
      obtain ⟨-, written⟩ := compileTokens_eq_ok.mp compiled
      obtain ⟨-, items⟩ := readUnit_written options.checkOnly tokens options.limit done
      rw [← written, itemsFrom, storage, writtenFrom, handed]
      refine congrArg (assemblyText options.globalPrefix) ?_
      dsimp only [outcome]
      cases only : options.checkOnly <;> rw [only] at items
      · exact congrArg (· ++ _) items
      · simpa using items
    diagnostics }

/-- Without a diagnostic nothing has been reported. -/
theorem Concludes.quiet {options : Options} {file source : String} {compilation : Compilation}
    {globals : List Global} {checker : Checker}
    (concludes : Concludes options file source compilation globals checker)
    (silent : compilation.diagnostics = []) : checker.reports = [] :=
  List.map_eq_nil_iff.mp (concludes.diagnostics.symm.trans silent)

namespace Handed

variable {entry : Handed}

/-- A symbol of the unit that a function knows is in the unit with its name and its type. -/
theorem mem_unit {checker : Checker} (keeps : entry.symbols.Keeps checker.symbols)
    {symbol : SymbolId} (outer : symbol.scope = unitScope)
    (known : entry.symbols.typeOf symbol ≠ .error) :
    (entry.symbols.nameOf symbol, entry.symbols.typeOf symbol) ∈ checker.unit := by
  have kept := keeps symbol _ (SymbolTable.declared_of_typeOf known)
  rw [SymbolTable.declared_eq_getElem, outer] at kept
  exact List.mem_of_getElem? kept

/-- While a function is lowered, symbols keep their names. -/
theorem nameOf_subject {site : Site} (member : site ∈ entry.sites)
    {subject : Expression × Progress} (listed : subject ∈ site.subjects) (symbol : SymbolId) :
    subject.2.symbols.nameOf symbol = entry.symbols.nameOf symbol := by
  obtain ⟨-, advances⟩ := (entry.function.within_sites _ _ site member).subjects subject listed
  have alike := (entry.function.alike_entry entry.symbols entry.generated.nextLabel).trans
    advances.alike
  rw [SymbolTable.nameOf_eq_declared, SymbolTable.nameOf_eq_declared, alike.declared]

end Handed

/-! What a derivation declares. -/

/-- Arrays are small enough for their sizes to be exact. -/
theorem Declarator.Derives.size {specifier : Specifier} {start rest : List Token}
    {declarator : Declarator} (derived : declarator.Derives specifier start rest) :
    (declarator.type specifier).size = (declarator.type specifier).bytes := by
  cases derived with
  | scalar => rfl
  | array _ _ _ _ _ _ _ small =>
    -- The bound on the length keeps the product below the largest size.
    refine Nat.min_eq_left (Nat.le_trans small ?_)
    decide

/-- What a unit declares is a variable whose size is exact, or a function of scalars. -/
inductive Declared : Ty → Prop where
  /-- A variable. -/
  | object {type : Ty} (object : type.isFunction = false) (proper : type.isError = false)
    (exact : type.size = type.bytes) : Declared type
  /-- A function, with a body or without. -/
  | function (specifier : Specifier) (indirection : Nat) (parameters : Parameters) :
    Declared (parameters.type specifier indirection)

theorem GlobalDeclarator.Derives.declared {specifier : Specifier} {start rest : List Token}
    {declarator : GlobalDeclarator} (derived : declarator.Derives specifier start rest) :
    Declared (declarator.declaration specifier).2 := by
  cases derived with
  | object derived =>
    refine .object ?_ ?_ derived.size <;>
    · cases derived <;> rfl
  | prototype => exact .function _ _ _

/-- Every declaration of a unit is of a variable or of a function. -/
theorem DerivesUnit.declared {tokens : List Token} {globals : List Global}
    (derived : DerivesUnit tokens globals) :
    ∀ declaration ∈ declaredIn globals, Declared declaration.2 := by
  obtain ⟨last, -, run⟩ := derived
  intro declaration listed
  obtain ⟨global, member, inside⟩ := List.mem_flatMap.mp listed
  obtain ⟨before, after, derives⟩ := run.each global member
  -- The declaration comes from one declarator of a list or from the head of a body.
  cases derives with
  | declaration specified declared closes =>
    obtain ⟨declarator, here, rfl⟩ := List.mem_map.mp inside
    obtain ⟨_, _, derives⟩ := declared.each declarator here
    exact derives.declared
  | definition =>
    rw [List.mem_singleton.mp inside]
    exact .function _ _ _

/-- The functions that are used in a unit are those that have bodies. -/
theorem Global.usages_fst (globals : List Global) (scoping : Scoping) :
    ((Global.usages globals scoping).1.map Prod.fst).map Definition.name =
      definedNames globals := by
  induction globals generalizing scoping with
  | nil => rfl
  | cons first rest ih =>
    cases first with
    | declaration specifier declarators => exact ih _
    | definition function => exact congrArg (function.name :: ·) (ih _)

/-- The functions that are handed on have the names of those that have bodies, in order. -/
theorem Concludes.names {options : Options} {file source : String} {compilation : Compilation}
    {globals : List Global} {checker : Checker}
    (concludes : Concludes options file source compilation globals checker) :
    (handedOver options source).map Handed.name = definedNames globals := by
  rw [← Global.usages_fst globals .start, List.map_map]
  have follows := concludes.follows
  -- Usages and functions correspond one by one, so the lists of names are compared along that.
  generalize (Global.usages globals .start).1 = usages at follows
  generalize handedOver options source = entries at follows
  induction follows with
  | nil => rfl
  | cons head tail ih =>
    rw [List.map_cons, List.map_cons, ih]
    exact congrArg (· :: _) head.follows.called

end SmallC
