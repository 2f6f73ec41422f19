import SmallC.Proofs.Definitions.Directives

/-! Storage: what code names in memory as its unit does is a variable that has storage, unless it is
a function that is compared or passed on as if it were a value. -/

namespace SmallC

/-- The operands that are read as words although they are functions: both of a comparison, and the
arguments of a call that no parameter stands for. -/
inductive Expression.Exposes (symbols : SymbolTable) : (node function : Expression) → Prop where
  /-- A function is compared with another one of its type. -/
  | left (relation : Comparison) {function other : Expression} (type : Ty)
    (same : other.type = function.type) :
    Exposes symbols (.binary (.compare relation) function other type) function
  /-- Another function of its type is compared with the function. -/
  | right (relation : Comparison) {function other : Expression} (type : Ty)
    (same : other.type = function.type) :
    Exposes symbols (.binary (.compare relation) other function type) function
  /-- A function is passed behind the arguments that have parameters. -/
  | argument (callee : SymbolId) {arguments : List Expression} {function : Expression}
    {specifier : Specifier} {indirection : Nat} {parameters : List Ty} (type : Ty)
    (declared : symbols.typeOf callee = .function specifier indirection parameters true)
    (extra : function ∈ arguments.drop parameters.length) :
    Exposes symbols (.call callee arguments type) function

/-- How an instruction of a function may use a name of the unit in memory. -/
inductive Handed.Serves (entry : Handed) (globals : List Global) (items : List Item)
    (instruction : Instruction) (name : String) : Prop where
  /-- The name is that of a variable, whose storage has room for what is read or written there. -/
  | variable {bytes : Nat} (declared : name ∈ (variablesIn globals).map Prod.fst)
    (stored : .common name bytes ∈ items)
    (room : instruction.opcode = .leal ∨ instruction.opcode.accessed ≤ bytes)
  /-- The name is that of a function, whose first word is read for a value. -/
  | function {node : Expression} {progress : Progress} {symbol : SymbolId} {type : Ty}
    (declared : name ∈ (functionsIn globals).map Prod.fst)
    (site : .node node progress ∈ entry.sites)
    (written : .code instruction ∈ (Site.node node progress).code)
    (word : instruction.opcode = .movl) (named : entry.symbols.nameOf symbol = name)
    (function : type.isFunction = true)
    (exposed : node.Exposes entry.symbols (.identifier symbol type))

/-- An operation that reads a value reads as many bytes as the value has. -/
theorem Opcode.accessed_of_reads {opcode : Opcode} {type : Ty} (reads : opcode.reads type = true) :
    opcode.accessed = (Width.of type).size := by
  cases opcode <;> simp_all [Opcode.reads, accessed, bytes, Width.size]
  rfl

/-- An operation that stores a value writes as many bytes as the value has. -/
theorem Opcode.accessed_of_stores {opcode : Opcode} {type : Ty}
    (stores : opcode.stores type = true) : opcode.accessed = (Width.of type).size := by
  cases opcode <;> simp_all [Opcode.stores, accessed, bytes, Width.size]

theorem Width.size_scalar (specifier : Specifier) (indirection : Nat) :
    (Width.of (.scalar specifier indirection)).size = (Ty.scalar specifier indirection).size := by
  cases indirection with
  | zero => cases specifier <;> rfl
  | succ indirection => simp [Width.of, Ty.isReal, Ty.char, size, Ty.size, Ty.elementSize]

/-- An operation that suits a scalar stays inside it, or takes its address. -/
theorem Expression.Suits.room {value : Expression} {opcode : Opcode} {specifier : Specifier}
    {indirection : Nat} (suits : value.Suits opcode)
    (scalar : value.type = .scalar specifier indirection) :
    opcode = .leal ∨ opcode.accessed ≤ value.type.size := by
  rw [scalar, ← Width.size_scalar]
  -- A read and a write have the width of the scalar.
  cases suits with
  | read _ reads =>
    rw [scalar] at reads
    exact .inr (Opcode.accessed_of_reads reads).le
  | write _ stores =>
    rw [scalar] at stores
    exact .inr (Opcode.accessed_of_stores stores).le
  | address => exact .inl rfl

/-- Of an array only the address is taken. -/
theorem Expression.Suits.address_of_array {value : Expression} {opcode : Opcode}
    {symbols : SymbolTable} (suits : value.Suits opcode) (typed : value.Typed symbols)
    (array : value.type.isArray = true) : opcode = .leal := by
  -- An array is neither read as a whole nor an lvalue that is stored to.
  cases suits with
  | read plain =>
    rw [plain] at array
    cases array
  | write storage =>
    obtain ⟨specifier, indirection, scalar⟩ := typed.scalar_of_lvalue storage
    rw [scalar] at array
    cases array
  | address => rfl

/-- A function can only be read, and only as a word. -/
theorem Expression.Suits.word_of_function {value : Expression} {opcode : Opcode}
    {symbols : SymbolTable} (suits : value.Suits opcode) (typed : value.Typed symbols)
    (function : value.type.isFunction = true) : opcode = .movl := by
  -- Neither storage nor an array is a function.
  have other (storage : value.isLvalue = true) : False := by
    obtain ⟨specifier, indirection, scalar⟩ := typed.scalar_of_lvalue storage
    rw [scalar] at function
    cases function
  cases suits with
  | read _ reads =>
    generalize value.type = type at function reads
    cases type with
    | function => cases opcode <;> simp_all [Opcode.reads, Width.of, Ty.isReal, Ty.char, Ty.int]
    | error | scalar | array => cases function
  | write storage => exact (other storage).elim
  | address placed =>
    rcases placed with storage | array
    · exact (other storage).elim
    · generalize value.type = type at function array
      cases type with
      | function => cases array
      | error | scalar | array => cases function

/-! Functions are no operands but of comparisons and calls. -/

theorem Ty.Arithmetic.isFunction {type : Ty} (arithmetic : type.Arithmetic) :
    type.isFunction = false := by
  cases arithmetic <;> rfl

theorem Ty.Testable.isFunction {type : Ty} (testable : type.Testable) :
    type.isFunction = false := by
  cases testable <;> rfl

theorem Ty.Converts.isFunction {source target : Ty} (converts : source.Converts target) :
    source.isFunction = false := by
  cases converts <;> rfl

/-- No operator before or behind its operand has a function for one. -/
theorem UnaryOp.Types.isFunction {op : UnaryOp} {operand result : Ty}
    (types : op.Types operand result) : operand.isFunction = false := by
  cases types with
  | not testable => exact testable.isFunction
  | negate arithmetic => exact arithmetic.isFunction
  | dereference => rfl
  | cast converts => exact converts.isFunction

/-- Of the operators between operands, comparisons alone may have functions for them. -/
theorem BinaryOp.Types.isFunction {op : BinaryOp} {left right result : Ty}
    (types : op.Types left right result) :
    left.isFunction = false ∧ right.isFunction = false ∨
      ∃ relation, op = .compare relation ∧ left = right := by
  cases types with
  | multiply arithmetic | divide arithmetic | add arithmetic | subtract arithmetic =>
    exact .inl ⟨arithmetic.isFunction, arithmetic.isFunction⟩
  | compare relation => exact .inr ⟨relation, rfl, rfl⟩
  | logicalAnd first second | logicalOr first second =>
    exact .inl ⟨first.isFunction, second.isFunction⟩
  | remainder | addRight | addLeft | subtractRight | difference => exact .inl ⟨rfl, rfl⟩

/-- What leads to storage, or to an array, is no function. -/
theorem Expression.isFunction_target {operand : Expression} {symbols : SymbolTable}
    (typed : operand.Typed symbols) (placed : operand.type.isFunction = false) :
    operand.target.type.isFunction = false := by
  rcases operand.target_cases with ⟨pointer, type, rfl⟩ | ⟨itself, -⟩
  · obtain ⟨-, specifier, indirection, scalar⟩ := typed.followed
    show pointer.type.isFunction = false
    rw [scalar]
    rfl
  · rw [itself]
    exact placed

/-- No function is compatible with a scalar. -/
theorem Ty.compatible_function {type other : Ty} {specifier : Specifier} {indirection : Nat}
    (scalar : type = .scalar specifier indirection) (function : other.isFunction = true) :
    ¬ type.compatible other = true := by
  intro agreed
  have same := beq_iff_eq.mp agreed
  cases other with
  | function =>
    rw [scalar] at same
    cases specifier <;> cases indirection <;> cases same
  | error | scalar | array => cases function

/-- An argument that fits the parameter in its place is no function, since no parameter is one. -/
theorem mem_drop_of_fit {parameters : List Ty} {variadic : Bool} {arguments : List Expression}
    (scalars : ∀ parameter ∈ parameters, ∃ specifier indirection,
      parameter = .scalar specifier indirection)
    (fit : argumentsFit parameters variadic arguments = true) {argument : Expression}
    (passed : argument ∈ arguments) (function : argument.type.isFunction = true) :
    variadic = true ∧ argument ∈ arguments.drop parameters.length := by
  obtain ⟨counted, fits⟩ := (Bool.and_eq_true _ _).mp fit
  have extra : argument ∈ arguments.drop parameters.length := by
    rw [← List.take_append_drop parameters.length arguments, List.mem_append] at passed
    -- A parameter that it were compared with would be a function, too.
    refine passed.resolve_left fun early => ?_
    obtain ⟨index, here⟩ := List.mem_iff_getElem?.mp early
    rw [List.getElem?_take] at here
    split at here
    · next low =>
      have paired : (parameters[index], argument) ∈ parameters.zip arguments :=
        List.mem_of_getElem? (List.getElem?_zip_eq_some.mpr ⟨List.getElem?_eq_getElem low, here⟩)
      have agreed := List.all_eq_true.mp fits _ paired
      obtain ⟨specifier, indirection, scalar⟩ := scalars _ (List.getElem_mem low)
      exact Ty.compatible_function scalar function agreed
    · cases here
  refine ⟨?_, extra⟩
  -- A list of parameters that is not open has none behind its end.
  by_contra closed
  rw [if_neg closed, beq_iff_eq] at counted
  rw [counted, List.drop_length] at extra
  cases extra

/-- Numbers and pointers are no functions. -/
theorem Ty.isFunction_scalar {type : Ty} {specifier : Specifier} {indirection : Nat}
    (scalar : type = .scalar specifier indirection) : type.isFunction = false := by
  rw [scalar]
  rfl

/-- A function among the parts of a typed node is an operand of a comparison or an argument that no
parameter stands for. -/
theorem Expression.Typed.exposes {node part : Expression} {symbols : SymbolTable}
    (typed : node.Typed symbols)
    (scalars : ∀ callee specifier indirection parameters variadic,
      symbols.typeOf callee = .function specifier indirection parameters variadic →
        ∀ parameter ∈ parameters, ∃ kind depth, parameter = .scalar kind depth)
    (listed : part ∈ node.parts) (function : part.type.isFunction = true) :
    node.Exposes symbols part := by
  have never {operand : Expression} (same : part = operand)
      (other : operand.type.isFunction = false) : node.Exposes symbols part := by
    rw [same, other] at function
    cases function
  cases typed with
  | integer | real | string | identifier => cases listed
  | @call callee arguments specifier indirection parameters variadic declared _ _ fit =>
    -- Every parameter asks for a scalar, and further arguments are asked for nothing.
    obtain ⟨rfl, extra⟩ := mem_drop_of_fit (scalars _ _ _ _ _ declared) fit listed function
    exact .argument callee _ declared extra
  | @unary op operand type typed types =>
    cases op with
    | address => cases types
    | not | negate | dereference | cast => exact never (List.mem_singleton.mp listed) types.isFunction
  | address typed storage scalar =>
    exact never (List.mem_singleton.mp listed) (isFunction_target typed (Ty.isFunction_scalar scalar))
  | decay typed array =>
    refine never (List.mem_singleton.mp listed) (isFunction_target typed ?_)
    rw [array]
    rfl
  | step op typed storage =>
    obtain ⟨specifier, indirection, scalar⟩ := typed.scalar_of_lvalue storage
    exact never (List.mem_singleton.mp listed) (isFunction_target typed (Ty.isFunction_scalar scalar))
  | @binary op left right type first second types =>
    -- Comparisons ask for equal types only.
    rcases types.isFunction with ⟨plain, other⟩ | ⟨relation, rfl, same⟩
    · rcases List.mem_cons.mp listed with here | listed
      · exact never here plain
      · exact never (List.mem_singleton.mp listed) other
    · rcases List.mem_cons.mp listed with here | listed
      · rw [here]
        exact .left relation type same.symm
      · rw [List.mem_singleton.mp listed]
        exact .right relation type same

/-- Where a function is read at a site that follows the rules, it is an operand of a comparison or
an argument that no parameter stands for. -/
theorem Site.Checked.exposes {site : Site} {symbols : SymbolTable} (checked : site.Checked symbols)
    (scalars : ∀ callee specifier indirection parameters variadic,
      symbols.typeOf callee = .function specifier indirection parameters variadic →
        ∀ parameter ∈ parameters, ∃ kind depth, parameter = .scalar kind depth)
    {value : Expression × Progress} (listed : value ∈ site.consumed)
    (function : value.1.type.isFunction = true) :
    ∃ node progress, site = .node node progress ∧ node.Exposes symbols value.1 := by
  -- Statements read numbers, pointers, and the places of arrays or of storage.
  have never (other : value.1.type.isFunction = false) :
      ∃ node progress, site = .node node progress ∧ node.Exposes symbols value.1 := by
    rw [other] at function
    cases function
  cases site with
  | node node progress =>
    obtain ⟨typed, -⟩ := checked
    obtain ⟨part, -⟩ := Expression.mem_of_begun listed
    exact ⟨node, progress, rfl, typed.exposes scalars part function⟩
  | test tested progress opcode target =>
    obtain rfl := List.mem_singleton.mp listed
    exact never checked.2.isFunction
  | give given progress exit =>
    obtain ⟨-, specifier, indirection, scalar⟩ := checked
    obtain rfl := List.mem_singleton.mp listed
    exact never (Ty.isFunction_scalar scalar)
  | store left right progress =>
    obtain ⟨place, storage, -, same⟩ := checked
    obtain ⟨specifier, indirection, scalar⟩ := place.scalar_of_lvalue storage
    rcases List.mem_cons.mp listed with rfl | listed
    · exact never (Ty.isFunction_scalar (same.trans scalar))
    · obtain rfl := List.mem_singleton.mp listed
      exact never (Expression.isFunction_target place (Ty.isFunction_scalar scalar))
  | enter | settle | bind | mark | jump => cases listed

/-- A global name in memory is that of an identifier whose value is used. -/
theorem Uses.global {values : List (Expression × Progress)} {through : Option Register}
    {opcode : Opcode} {name : String} (uses : Uses values through opcode (.global name)) :
    ∃ symbol type progress, (Expression.identifier symbol type, progress) ∈ values ∧
      name = progress.symbols.nameOf symbol ∧ (Expression.identifier symbol type).Suits opcode ∧
      ((Expression.identifier symbol type).lowered progress).value = .global name := by
  generalize same : Operand.global name = operand at uses
  -- A global name is the value of something that is used, and only identifiers have such values.
  cases uses with
  | frame | outgoing | indirect => cases same
  | @value value listed suits =>
    obtain ⟨expression, progress⟩ := value
    dsimp only at same suits
    have shown := expression.shown progress
    rw [← same] at shown
    cases shown with
    | global symbol type => exact ⟨symbol, type, progress, listed, rfl, suits, rfl⟩

section Concluded

variable {options : Options} {file source : String} {compilation : Compilation}
  {globals : List Global} {checker : Checker}

/-- The parameters of every function that can be called are scalars. -/
theorem Concludes.scalars (concludes : Concludes options file source compilation globals checker)
    {entry : Handed} (member : entry ∈ handedOver options source) (callee : SymbolId)
    (specifier : Specifier) (indirection : Nat) (parameters : List Ty) (variadic : Bool)
    (declared : entry.symbols.typeOf callee = .function specifier indirection parameters variadic) :
    ∀ parameter ∈ parameters, ∃ kind depth, parameter = .scalar kind depth := by
  obtain ⟨tokens, -, derived, -⟩ := concludes.derived
  have outer := Function.unit_of_callee (concludes.settled member) declared
  -- What can be called is declared in the unit, so its type comes from a declaration of the source.
  have known := Handed.mem_unit (concludes.vouches.keeps entry member) outer
    (by rw [declared]; simp)
  have made := derived.declared _ (concludes.accounts.sources known)
  dsimp only at made
  rw [declared] at made
  intro parameter listed
  cases made with
  | object object => cases object
  | function specifier indirection parameters =>
    obtain ⟨written, -, rfl⟩ := List.mem_map.mp listed
    exact ⟨written.specifier, written.indirection, rfl⟩

/-- A variable that the checker knows has storage, with room for every use of its value. -/
theorem Concludes.stores (concludes : Concludes options file source compilation globals checker)
    (silent : compilation.diagnostics = []) (assembled : options.checkOnly = false)
    {symbols : SymbolTable} {value : Expression} {opcode : Opcode} {name : String}
    (known : (name, value.type) ∈ checker.unit) (object : value.type.isFunction = false)
    (proper : value.type ≠ .error) (typed : value.Typed symbols) (suits : value.Suits opcode) :
    name ∈ (variablesIn globals).map Prod.fst ∧ ∃ bytes,
      .common name bytes ∈ itemsFrom options source ∧
        (opcode = .leal ∨ opcode.accessed ≤ bytes) := by
  -- Whatever is no function and has a proper type is among the names with storage.
  have stored : (name, value.type) ∈ checker.stored := by
    refine List.mem_filter.mpr ⟨known, ?_⟩
    cases same : value.type with
    | error => exact absurd same proper
    | scalar | array => rfl
    | function =>
      rw [same] at object
      cases object
  refine ⟨List.mem_map_of_mem ((concludes.mem_stored silent).mp stored), value.type.size, ?_, ?_⟩
  · refine List.mem_append_right _ ?_
    rw [concludes.storage, assembled, if_neg Bool.false_ne_true, Checker.filterMap_globalItem?]
    exact List.mem_map_of_mem stored
  · cases same : value.type with
    | error => exact absurd same proper
    | scalar specifier indirection =>
      rw [← same]
      exact suits.room same
    | array =>
      refine .inl (suits.address_of_array typed ?_)
      rw [same]
      rfl
    | function =>
      rw [same] at object
      cases object

/-- What code names in memory as the unit does is a variable or an exposed function. -/
theorem Concludes.serves (concludes : Concludes options file source compilation globals checker)
    (silent : compilation.diagnostics = []) (assembled : options.checkOnly = false) {entry : Handed}
    (member : entry ∈ handedOver options source) {instruction : Instruction}
    (written : .code instruction ∈ entry.code) {name : String}
    (used : .global name ∈ instruction.memory) :
    entry.Serves globals (itemsFrom options source) instruction name := by
  have checked := concludes.checked silent member
  obtain ⟨_, _, _, _, typed⟩ := concludes.vouches.typed (concludes.quiet silent) entry member
  rcases Handed.formed_code checked written with formed | ⟨site, listed, here, formed⟩
  · -- Around the body no value is used.
    obtain ⟨_, _, _, nothing, -⟩ := (formed.uses _ used).global
    cases nothing
  obtain ⟨symbol, type, progress, read, rfl, suits, global⟩ := (formed.uses _ used).global
  -- The name is that of a symbol of the unit.
  obtain ⟨inside, stretch⟩ := Function.consumed_sites listed _ read
  have lowered : .node (.identifier symbol type) progress ∈ entry.sites :=
    stretch.subset (by simp [Expression.sites])
  have node := typed.nodes _ inside
  have outer : symbol.scope = unitScope := by
    refine (Function.reaches_identifier (concludes.settled member) _ lowered ?_).outermost.mp
      ⟨_, global⟩
    exact Function.known_identifier (concludes.settled member) inside
  have named : progress.symbols.nameOf symbol = entry.symbols.nameOf symbol :=
    Handed.nameOf_subject lowered (List.mem_singleton_self (Expression.identifier symbol type, _))
      symbol
  obtain ⟨declared, proper⟩ : entry.symbols.typeOf symbol = type ∧ type ≠ .error := by
    cases node with
    | identifier _ declared proper => exact ⟨declared, proper⟩
  have known := Handed.mem_unit (concludes.vouches.keeps entry member) outer (by rwa [declared])
  rw [← named, declared] at known
  cases function : type.isFunction with
  | false =>
    obtain ⟨kept, bytes, stored, room⟩ :=
      @Concludes.stores _ _ _ _ _ _ concludes silent assembled _ (.identifier symbol type) _ _ known
        function proper node suits
    exact .variable kept stored room
  | true =>
    obtain ⟨above, before, rfl, exposed⟩ :=
      (checked site listed).exposes (concludes.scalars member) read function
    have declared := concludes.accounts.sources known
    refine .function ?_ listed here (suits.word_of_function node function) named.symm function
      exposed
    exact List.mem_map.mpr ⟨_, List.mem_filter.mpr ⟨declared, function⟩, rfl⟩

end Concluded

/-- Without a diagnostic, every name of the unit that code names in memory is that of a variable
whose storage has room for the access, or of a function that is compared, or passed where the
function that is called has no parameter. -/
theorem compile_storage {options : Options} {file source : String} {compilation : Compilation}
    (compiled : compile options file source = .ok compilation)
    (silent : compilation.diagnostics = []) :
    ∃ tokens globals, tokensOf source = .ok tokens ∧ DerivesUnit tokens globals ∧
      (∀ others, DerivesUnit tokens others → others = globals) ∧
      compilation.assembly = assemblyText options.globalPrefix (itemsFrom options source) ∧
      ∀ entry ∈ writtenFrom options source, ∀ instruction,
        .code instruction ∈ entry.code ++ entry.constants → ∀ name,
          .global name ∈ instruction.memory →
            entry.Serves globals (itemsFrom options source) instruction name := by
  obtain ⟨globals, checker, concludes⟩ := compile_concludes compiled
  obtain ⟨tokens, lexed, derived, unique⟩ := concludes.derived
  refine ⟨tokens, globals, lexed, derived, unique, concludes.assembly, ?_⟩
  intro entry member instruction written name used
  unfold writtenFrom at member
  cases assembled : options.checkOnly with
  | true =>
    rw [if_pos assembled] at member
    cases member
  | false =>
    rw [if_neg (Bool.eq_false_iff.mp assembled)] at member
    rcases List.mem_append.mp written with code | constant
    · exact concludes.serves silent assembled member code used
    · -- The constants of a function are no instructions.
      rcases Handed.mem_literalItems constant with same | same | ⟨label, value, same⟩ <;> cases same

/-- A function that uses variables of every width, and what one of them leads to. -/
def tallySource : String :=
  "int n; char s[3]; double d; int f(void) { n = n + 1; d = d / 0.5; return n + *s; }"

set_option maxRecDepth 4000 in
/-- It compiles in silence, and its instructions name storage only. -/
theorem compile_storage_tally :
    ∃ compilation, compile {} "tally.c" tallySource = .ok compilation ∧
      compilation.diagnostics = [] ∧
      ∃ tokens globals, tokensOf tallySource = .ok tokens ∧ DerivesUnit tokens globals ∧
        compilation.assembly = assemblyText "" (itemsFrom {} tallySource) ∧
        ∀ entry ∈ writtenFrom {} tallySource, ∀ instruction,
          .code instruction ∈ entry.code ++ entry.constants → ∀ name,
            .global name ∈ instruction.memory →
              entry.Serves globals (itemsFrom {} tallySource) instruction name := by
  have reads : readsSilently {} tallySource = true := by cbv
  obtain ⟨compilation, compiled, silent⟩ := compile_silent reads "tally.c"
  obtain ⟨tokens, globals, found, derived, -, written, served⟩ := compile_storage compiled silent
  exact ⟨compilation, compiled, silent, tokens, globals, found, derived, written, served⟩

/-- A function that is compared with another one. -/
def twinsSource : String := "int g(void) { } int f(void) { return f == g; }"

set_option maxRecDepth 4000 in
/-- The comparison is not reported. It reads the first word of the function, and there is no storage
at all. -/
theorem twinsSource_unstored :
    ∃ compilation, compile {} "<input>" twinsSource = .ok compilation ∧
      compilation.diagnostics = [] ∧
      compilation.assembly = assemblyText "" (itemsFrom {} twinsSource) ∧
      (∀ name bytes, .common name bytes ∉ itemsFrom {} twinsSource) ∧
      .entry "f" ∈ itemsFrom {} twinsSource ∧
      ∃ instruction, .code instruction ∈ itemsFrom {} twinsSource ∧
        instruction.opcode = .movl ∧ .global "f" ∈ instruction.memory := by
  have reads : readsSilently {} twinsSource = true := by cbv
  have directives : (itemsFrom {} twinsSource).filterMap Item.directive? =
      [(.label, "g"), (.size, "g"), (.visible, "g"), (.label, "f"), (.size, "f"),
        (.visible, "f")] := by cbv
  have starts : (itemsFrom {} twinsSource).contains (.entry "f") = true := by cbv
  have moves : (itemsFrom {} twinsSource).contains
      (operate .movl [.operand (.global "f"), .register .eax]) = true := by cbv
  obtain ⟨compilation, compiled, silent⟩ := compile_silent reads "<input>"
  obtain ⟨globals, checker, concludes⟩ := compile_concludes compiled
  refine ⟨compilation, compiled, silent, concludes.assembly, fun name bytes member => ?_,
    List.contains_iff_mem.mp starts, _, List.contains_iff_mem.mp moves, rfl, by decide⟩
  have listed : (.storage, name) ∈ (itemsFrom {} twinsSource).filterMap Item.directive? :=
    List.mem_filterMap.mpr ⟨_, member, rfl⟩
  rw [directives] at listed
  simp at listed

end SmallC
