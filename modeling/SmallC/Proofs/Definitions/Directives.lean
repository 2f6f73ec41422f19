import SmallC.Proofs.Definitions.Units
import SmallC.Proofs.Operands.Acceptance
import SmallC.Proofs.Report.Messages

/-! Directives: the assembly of a source without a diagnostic defines what the source defines, each
name once, and a name that is defined again is reported each time. -/

namespace SmallC

/-- How an item may define a name of the unit. -/
inductive Directive where
  /-- The code of a function starts. -/
  | label
  /-- Other units see a function. -/
  | visible
  /-- The frame of a function has a size. -/
  | size
  /-- A variable has storage. -/
  | storage
  deriving DecidableEq

/-- The name that an item defines, and how. -/
def Item.directive? : Item → Option (Directive × String)
  | .entry name => some (.label, name)
  | .visible name => some (.visible, name)
  | .frameSize name _ => some (.size, name)
  | .common name _ => some (.storage, name)
  | .code _ | .mark _ | .textSection | .dataSection | .literal .. | .blank => none

/-- How often items define a name in the given way. -/
def directed (items : List Item) (directive : Directive) (name : String) : Nat :=
  items.countP (·.directive? = some (directive, name))

/-- The names and types of the variables that a unit declares. -/
def variablesIn (globals : List Global) : List (String × Ty) :=
  (declaredIn globals).filter fun declaration => !declaration.2.isFunction

/-- The names and types of the functions that a unit declares, with bodies or without. -/
def functionsIn (globals : List Global) : List (String × Ty) :=
  (declaredIn globals).filter fun declaration => declaration.2.isFunction

/-- How often a compilation has told of a further body of a function. -/
def Compilation.redefinitions (compilation : Compilation) (name : String) : Nat :=
  compilation.diagnostics.countP (·.message = (Problem.redefinition name).message)

/-- Items define what a unit defines, and nothing else. -/
structure Consistent (globals : List Global) (items : List Item) : Prop where
  /-- Every function with a body has one label, is made visible once, and has one size. -/
  functions : ∀ directive, directive ≠ .storage → ∀ name, directed items directive name =
    if name ∈ definedNames globals then 1 else 0
  /-- Every variable has storage once. -/
  stored : ∀ name, directed items .storage name =
    if name ∈ (variablesIn globals).map Prod.fst then 1 else 0
  /-- The storage is as large as the variable. -/
  sizes : ∀ name bytes, .common name bytes ∈ items ↔
    ∃ type, (name, type) ∈ variablesIn globals ∧ bytes = type.bytes
  /-- No name is that of a function with a body and of a variable. -/
  apart : ∀ name ∈ definedNames globals, name ∉ (variablesIn globals).map Prod.fst
  /-- Only functions that the unit declares are called. -/
  callees : ∀ instruction, .code instruction ∈ items → ∀ name,
    .callee name ∈ instruction.arguments → name ∈ (functionsIn globals).map Prod.fst

section Counting

variable {directive : Directive} {name : String}

@[simp] theorem directed_append (first second : List Item) :
    directed (first ++ second) directive name =
      directed first directive name + directed second directive name :=
  List.countP_append

theorem directed_eq_zero {items : List Item} (plain : ∀ item ∈ items, item.directive? = none) :
    directed items directive name = 0 := by
  refine List.countP_eq_zero.mpr fun item member => ?_
  simp [plain item member]

/-- What defines a name counts. -/
theorem directed_pos {items : List Item} {item : Item} (member : item ∈ items)
    (defines : item.directive? = some (directive, name)) : 0 < directed items directive name :=
  List.countP_pos_iff.mpr ⟨item, member, decide_eq_true defines⟩

/-- Instructions and labels inside a function define no name of the unit. -/
theorem directed_formed {values : List (Expression × Progress)} {through : Option Register}
    {callee : Option String} {code : Code} (formed : Formed values through callee code) :
    directed code directive name = 0 := by
  refine directed_eq_zero fun item member => ?_
  have shape := formed item member
  cases item <;> first | rfl | exact shape.elim

theorem directed_literalItems (literals : List (Label × Literal)) :
    directed (literalItems literals) directive name = 0 := by
  refine directed_eq_zero fun item member => ?_
  rcases Handed.mem_literalItems member with rfl | rfl | ⟨label, value, rfl⟩ <;> rfl

/-- What stands around the body of a function defines its name in every way but as storage. -/
theorem directed_around (function : String) (exit : Label) (frame : Frame) :
    directed (prologue function) directive name + directed (epilogue function exit frame) directive
        name = if directive ≠ .storage ∧ name = function then 1 else 0 := by
  cases directive <;>
    simp [prologue, epilogue, directed, Item.directive?, operate, List.countP_cons, eq_comm]

/-- A function is written with the definitions of its own name. -/
theorem Handed.directed_code {entry : Handed} {symbols : SymbolTable}
    (checked : ∀ site ∈ entry.sites, site.Checked symbols) :
    directed (entry.code ++ entry.constants) directive name =
      if directive ≠ .storage ∧ name = entry.name then 1 else 0 := by
  have inside : directed (codeAt entry.sites) directive name = 0 := by
    refine List.countP_eq_zero.mpr fun item member => ?_
    obtain ⟨site, listed, here⟩ := List.mem_flatMap.mp member
    exact List.countP_eq_zero.mp (directed_formed (checked site listed).formed) item here
  rw [directed_append, constants, directed_literalItems, code_sites, directed_append,
    directed_append, inside, ← directed_around entry.name entry.exit entry.last.frame]
  omega

/-- Functions are written one behind the other. -/
theorem directed_flatMap {entries : List Handed}
    (checked : ∀ entry ∈ entries, ∃ symbols, ∀ site ∈ entry.sites, site.Checked symbols) :
    directed (entries.flatMap fun entry => entry.code ++ entry.constants) directive name =
      if directive = .storage then 0 else (entries.map Handed.name).count name := by
  induction entries with
  | nil => simp [directed]
  | cons first rest ih =>
    obtain ⟨⟨symbols, here⟩, others⟩ := List.forall_mem_cons.mp checked
    rw [List.flatMap_cons, directed_append, Handed.directed_code here, ih others, List.map_cons,
      List.count_cons]
    -- A function stands once under its own name, and never as storage.
    by_cases stored : directive = .storage
    · simp [stored]
    · by_cases same : name = first.name
      · simp [stored, same, Nat.add_comm]
      · simp [stored, same, Ne.symm same]

end Counting

namespace Checker

variable {checker : Checker} {globals : List Global}

/-- What a checker knows of the variables of a unit. -/
def stored (checker : Checker) : List (String × Ty) :=
  checker.unit.filter fun declaration => !(declaration.2.isFunction || declaration.2.isError)

/-- Storage is written for variables. -/
theorem filterMap_globalItem? (symbols : List Symbol) : symbols.filterMap globalItem? =
    ((symbols.map Symbol.declaration).filter fun declaration =>
      !(declaration.2.isFunction || declaration.2.isError)).map
        fun declaration => .common declaration.1 declaration.2.size := by
  induction symbols with
  | nil => rfl
  | cons first rest ih =>
    rw [List.map_cons, List.filter_cons, List.filterMap_cons, ih]
    unfold globalItem?
    by_cases stored : (first.type.isFunction || first.type.isError) = true
    · simp [stored, Symbol.declaration]
    · simp [stored, Symbol.declaration]

/-- Every variable has storage once, since its name is in the unit once. -/
theorem Accounts.directed_storage {declared : List (String × Ty)} {defined : List String}
    (accounts : checker.Accounts declared defined) (name : String) :
    directed ((checker.symbols.symbolsOf unitScope).filterMap globalItem?) .storage name =
      if name ∈ checker.stored.map Prod.fst then 1 else 0 := by
  have once : (checker.stored.map Prod.fst).Nodup :=
    accounts.distinct.sublist (List.filter_sublist.map _)
  rw [filterMap_globalItem?, ← once.count, directed, List.countP_map, List.count, List.countP_map]
  refine List.countP_congr fun declaration _ => ?_
  simp [Item.directive?]

/-- Storage is all that is written behind the functions. -/
theorem directed_other {directive : Directive} (other : directive ≠ .storage) (name : String) :
    directed ((checker.symbols.symbolsOf unitScope).filterMap globalItem?) directive name = 0 := by
  rw [filterMap_globalItem?]
  refine List.countP_eq_zero.mpr fun item member => ?_
  obtain ⟨declaration, -, rfl⟩ := List.mem_map.mp member
  simp [Item.directive?, Ne.symm other]

/-- Without a report, the unit holds just what is declared. -/
theorem Accounts.mem_unit {declared : List (String × Ty)} {defined : List String}
    (accounts : checker.Accounts declared defined) (silent : checker.reports = [])
    {declaration : String × Ty} : declaration ∈ checker.unit ↔ declaration ∈ declared :=
  ⟨fun known => accounts.sources known, fun listed => accounts.agreed silent listed⟩

/-- Without a report, every function has one body. -/
theorem Accounts.nodup {declared : List (String × Ty)} {defined : List String}
    (accounts : checker.Accounts declared defined) (silent : checker.reports = []) :
    defined.Nodup := by
  refine List.nodup_iff_count_le_one.mpr fun name => ?_
  have counted := accounts.counted name
  rw [redefinitions, silent, List.countP_nil] at counted
  omega

/-- Without a report, a name has one type in a unit. -/
theorem Accounts.unique {declared : List (String × Ty)} {defined : List String}
    (accounts : checker.Accounts declared defined) (silent : checker.reports = []) {name : String}
    {type other : Ty} (first : (name, type) ∈ declared) (second : (name, other) ∈ declared) :
    type = other := by
  have same := List.inj_on_of_nodup_map accounts.distinct (accounts.agreed silent first)
    (accounts.agreed silent second) rfl
  exact (Prod.mk.inj same).2

end Checker

section Concluded

variable {options : Options} {file source : String} {compilation : Compilation}
  {globals : List Global} {checker : Checker}

/-- Every body of a function but the first is told of. -/
theorem Concludes.redefinitions
    (concludes : Concludes options file source compilation globals checker) (name : String) :
    compilation.redefinitions name = (definedNames globals).count name - 1 := by
  rw [← concludes.accounts.counted name, Compilation.redefinitions, concludes.diagnostics,
    List.countP_map]
  refine List.countP_congr fun report _ => ?_
  simp only [Function.comp_apply, Report.diagnostic, decide_eq_true_eq]
  exact Problem.message_eq_redefinition

/-- Without a diagnostic, the sites of a function follow the rules. -/
theorem Concludes.checked (concludes : Concludes options file source compilation globals checker)
    (silent : compilation.diagnostics = []) {entry : Handed}
    (member : entry ∈ handedOver options source) :
    ∀ site ∈ entry.sites, site.Checked entry.symbols := by
  obtain ⟨specifier, indirection, parameters, variadic, typed⟩ :=
    concludes.vouches.typed (concludes.quiet silent) entry member
  exact typed.checked _

/-- Every function can be lowered. -/
theorem Concludes.settled (concludes : Concludes options file source compilation globals checker)
    {entry : Handed} (member : entry ∈ handedOver options source) :
    entry.function.Settled entry.symbols := by
  obtain ⟨index, within, rfl⟩ := List.mem_iff_getElem.mp member
  have follows := concludes.follows
  exact (follows.get within (follows.length_eq ▸ within)).settled

/-- A variable of a unit is one of the variables that the checker knows, with its exact size. -/
theorem Concludes.mem_stored (concludes : Concludes options file source compilation globals checker)
    (silent : compilation.diagnostics = []) {declaration : String × Ty} :
    declaration ∈ checker.stored ↔ declaration ∈ variablesIn globals := by
  obtain ⟨tokens, -, derived, -⟩ := concludes.derived
  obtain ⟨name, type⟩ := declaration
  unfold Checker.stored variablesIn
  rw [List.mem_filter, List.mem_filter, concludes.accounts.mem_unit (concludes.quiet silent)]
  refine and_congr_right fun listed => ?_
  -- What is declared is a variable of a proper type or a function.
  cases derived.declared _ listed with
  | object object proper => simp [object, proper]
  | function => simp [Ty.isFunction]

/-- The size of a variable is exact. -/
theorem Concludes.size (concludes : Concludes options file source compilation globals checker)
    {name : String} {type : Ty} (listed : (name, type) ∈ variablesIn globals) :
    type.size = type.bytes := by
  obtain ⟨tokens, -, derived, -⟩ := concludes.derived
  obtain ⟨declared, object⟩ := List.mem_filter.mp listed
  cases derived.declared _ declared with
  | object _ _ exact => exact exact
  | function => cases object

/-- A function with a body is declared as a function. -/
theorem functionsIn_of_defined {name : String} (body : name ∈ definedNames globals) :
    name ∈ (functionsIn globals).map Prod.fst := by
  obtain ⟨definition, listed, rfl⟩ := List.mem_map.mp body
  obtain ⟨global, member, found⟩ := List.mem_filterMap.mp listed
  have here : definition.declaration ∈ global.declarations := by
    cases global with
    | declaration => cases found
    | definition => cases found; exact List.mem_singleton_self _
  exact List.mem_map_of_mem (List.mem_filter.mpr ⟨List.mem_flatMap.mpr ⟨global, member, here⟩, rfl⟩)

/-- A function that is called is declared in the unit. -/
theorem Concludes.callee (concludes : Concludes options file source compilation globals checker)
    (silent : compilation.diagnostics = []) {entry : Handed}
    (member : entry ∈ handedOver options source) {instruction : Instruction}
    (written : .code instruction ∈ entry.code) {name : String}
    (called : .callee name ∈ instruction.arguments) :
    name ∈ (functionsIn globals).map Prod.fst := by
  have checked := concludes.checked silent member
  rcases Handed.formed_code checked written with formed | ⟨site, listed, -, formed⟩
  · cases formed.callees name called
  · have named := formed.callees name called
    -- Only the code of a call calls anything.
    unfold Site.callee? at named
    split at named
    · next callee arguments type progress =>
      obtain ⟨typed, -⟩ := checked _ listed
      cases typed with
      | call _ declared =>
        have outer := Function.unit_of_callee (concludes.settled member) declared
        have known := Handed.mem_unit (concludes.vouches.keeps entry member) outer
          (by rw [declared]; simp)
        rw [← Handed.nameOf_subject listed (List.mem_singleton_self _) callee,
          Option.some.inj named, declared] at known
        exact List.mem_map.mpr ⟨_, List.mem_filter.mpr ⟨concludes.accounts.sources known, rfl⟩, rfl⟩
    · cases named

/-- The assembly consists of the functions that are handed over, and of the storage behind them. -/
theorem Concludes.items_eq (concludes : Concludes options file source compilation globals checker)
    (assembled : options.checkOnly = false) : itemsFrom options source =
      (handedOver options source).flatMap (fun entry => entry.code ++ entry.constants)
        ++ (checker.symbols.symbolsOf unitScope).filterMap globalItem? := by
  simp [itemsFrom, writtenFrom, concludes.storage, assembled]

/-- Storage is written for the variables of the source, with their sizes. -/
theorem Concludes.mem_common (concludes : Concludes options file source compilation globals checker)
    (silent : compilation.diagnostics = []) (assembled : options.checkOnly = false) (name : String)
    (bytes : Nat) : .common name bytes ∈ itemsFrom options source ↔
      ∃ type, (name, type) ∈ variablesIn globals ∧ bytes = type.bytes := by
  have checked (entry : Handed) (member : entry ∈ handedOver options source) :
      ∃ symbols, ∀ site ∈ entry.sites, site.Checked symbols :=
    ⟨_, concludes.checked silent member⟩
  have others : .common name bytes ∉ (handedOver options source).flatMap
      (fun entry => entry.code ++ entry.constants) := by
    intro member
    have counted := @directed_pos .storage name _ _ member rfl
    rw [directed_flatMap checked, if_pos rfl] at counted
    exact Nat.lt_irrefl 0 counted
  -- Storage is written behind the functions only.
  rw [concludes.items_eq assembled, List.mem_append, or_iff_right others,
    Checker.filterMap_globalItem?, List.mem_map]
  constructor
  · rintro ⟨⟨_, type⟩, listed, same⟩
    cases same
    have object := (concludes.mem_stored silent).mp listed
    exact ⟨type, object, concludes.size object⟩
  · rintro ⟨type, object, rfl⟩
    refine ⟨(name, type), (concludes.mem_stored silent).mpr object, ?_⟩
    rw [← concludes.size object]

/-- A name with a body and storage would be declared with one type, which is that of a function or it
is not. -/
theorem Concludes.apart (concludes : Concludes options file source compilation globals checker)
    (silent : compilation.diagnostics = []) {name : String} (body : name ∈ definedNames globals) :
    name ∉ (variablesIn globals).map Prod.fst := by
  intro stored
  obtain ⟨⟨_, type⟩, function, rfl⟩ := List.mem_map.mp (functionsIn_of_defined body)
  obtain ⟨⟨_, other⟩, object, rfl⟩ := List.mem_map.mp stored
  obtain ⟨first, called⟩ := List.mem_filter.mp function
  obtain ⟨second, kept⟩ := List.mem_filter.mp object
  -- Without a report a name has one type in the unit.
  obtain rfl := concludes.accounts.unique (concludes.quiet silent) first second
  rw [called] at kept
  cases kept

/-- Neither constants nor storage call anything. -/
theorem Concludes.callees (concludes : Concludes options file source compilation globals checker)
    (silent : compilation.diagnostics = []) (assembled : options.checkOnly = false)
    {instruction : Instruction} (member : .code instruction ∈ itemsFrom options source)
    {name : String} (called : .callee name ∈ instruction.arguments) :
    name ∈ (functionsIn globals).map Prod.fst := by
  rw [concludes.items_eq assembled] at member
  -- Calls stand in the code of the functions and nowhere else.
  rcases List.mem_append.mp member with inside | behind
  · obtain ⟨entry, listed, here⟩ := List.mem_flatMap.mp inside
    rcases List.mem_append.mp here with code | constant
    · exact concludes.callee silent listed code called
    · rcases Handed.mem_literalItems constant with same | same | ⟨label, value, same⟩ <;>
        cases same
  · rw [Checker.filterMap_globalItem?] at behind
    obtain ⟨_, -, same⟩ := List.mem_map.mp behind
    cases same

/-- The assembly of a source without a diagnostic defines what the source defines. -/
theorem Concludes.consistent (concludes : Concludes options file source compilation globals checker)
    (silent : compilation.diagnostics = []) (assembled : options.checkOnly = false) :
    Consistent globals (itemsFrom options source) := by
  have quiet := concludes.quiet silent
  have accounts := concludes.accounts
  have checked (entry : Handed) (member : entry ∈ handedOver options source) :
      ∃ symbols, ∀ site ∈ entry.sites, site.Checked symbols :=
    ⟨_, concludes.checked silent member⟩
  -- Each field combines what the functions write with what the storage writes.
  exact {
    functions := by
      intro directive other name
      rw [concludes.items_eq assembled, directed_append, directed_flatMap checked,
        Checker.directed_other other, if_neg other, concludes.names, (accounts.nodup quiet).count,
        Nat.add_zero]
    stored := by
      intro name
      rw [concludes.items_eq assembled, directed_append, directed_flatMap checked, if_pos rfl,
        accounts.directed_storage, Nat.zero_add]
      simp only [List.mem_map, concludes.mem_stored silent]
    sizes := concludes.mem_common silent assembled
    apart := fun _ => concludes.apart silent
    callees := fun _ member _ => concludes.callees silent assembled member }

end Concluded

/-- Whatever source compiles, with diagnostics or without, it has one derivation, and every function
that has a body there is told of as often as it has further ones. Without a diagnostic, the assembly
defines each function that has a body and each variable once, and calls only functions of the
unit. -/
theorem compile_definitions {options : Options} {file source : String} {compilation : Compilation}
    (compiled : compile options file source = .ok compilation) :
    ∃ tokens globals, tokensOf source = .ok tokens ∧ DerivesUnit tokens globals ∧
      (∀ others, DerivesUnit tokens others → others = globals) ∧
      (∀ name, compilation.redefinitions name = (definedNames globals).count name - 1) ∧
      (compilation.diagnostics = [] → ∃ items,
        compilation.assembly = assemblyText options.globalPrefix items ∧
          if options.checkOnly then items = [] else Consistent globals items) := by
  obtain ⟨globals, checker, concludes⟩ := compile_concludes compiled
  obtain ⟨tokens, lexed, derived, unique⟩ := concludes.derived
  refine ⟨tokens, globals, lexed, derived, unique, concludes.redefinitions, fun silent => ?_⟩
  refine ⟨_, concludes.assembly, ?_⟩
  cases assembled : options.checkOnly with
  | true => simp [itemsFrom, writtenFrom, concludes.storage, assembled]
  | false => exact concludes.consistent silent assembled

/-- A function with three bodies, and a variable with its name between two of them. -/
def thriceSource : String := "int f(void) { } double f; int f(void) { } int f(void) { }"

/-- A function that is declared, defined and called, and a variable that is declared twice. -/
def onceSource : String :=
  "int f(void); char s[3]; int f(void) { return f(); } char s[3];"

set_option maxRecDepth 4000 in
/-- Two further bodies and the variable are reported of the one source, and the other one is defined
in its assembly. -/
theorem compile_definitions_once :
    (∃ compilation, compile {} "thrice.c" thriceSource = .ok compilation ∧
      compilation.diagnostics.length = 3 ∧
      ∃ tokens globals, tokensOf thriceSource = .ok tokens ∧ DerivesUnit tokens globals ∧
        ∀ name, compilation.redefinitions name = (definedNames globals).count name - 1) ∧
    ∃ compilation, compile {} "once.c" onceSource = .ok compilation ∧
      compilation.diagnostics = [] ∧
      ∃ tokens globals, tokensOf onceSource = .ok tokens ∧ DerivesUnit tokens globals ∧
        ∃ items, compilation.assembly = assemblyText "" items ∧ Consistent globals items := by
  constructor
  · have lexed : tokensOf thriceSource = .ok ((tokensOf thriceSource).toOption.getD []) := by cbv
    have read : (readUnit (generating false) ((tokensOf thriceSource).toOption.getD []) defaultLimit
        {}).failure? = none := by cbv
    have reported : (readUnit (generating false) ((tokensOf thriceSource).toOption.getD [])
        defaultLimit {}).reader.checker.reports.length = 3 := by cbv
    obtain ⟨compilation, compiled, count⟩ := @compile_of_read {} _ _ lexed "thrice.c" read
    obtain ⟨tokens, globals, found, derived, -, counted, -⟩ := compile_definitions compiled
    exact ⟨compilation, compiled, count.trans reported, tokens, globals, found, derived, counted⟩
  · have reads : readsSilently {} onceSource = true := by cbv
    obtain ⟨compilation, compiled, silent⟩ := compile_silent reads "once.c"
    obtain ⟨tokens, globals, found, derived, -, -, consistent⟩ := compile_definitions compiled
    exact ⟨compilation, compiled, silent, tokens, globals, found, derived, consistent silent⟩

end SmallC
