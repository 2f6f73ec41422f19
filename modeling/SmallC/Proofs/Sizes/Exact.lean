import SmallC.Proofs.Definitions.Units
import SmallC.Proofs.Source.Lexemes

/-! Exact sizes: which objects are small enough for their sizes to be counted in words, what words make
of all others, and that checking a unit enters no others into its table. -/

namespace SmallC

/-! Sizes in words. -/

/-- The product of two words, where it is one. -/
def wordProduct? (left right : UInt32) : Option UInt32 :=
  if left.toNat * right.toNat < UInt32.size then some (left * right) else none

/-- A product that is a word is the exact one. -/
theorem wordProduct?_eq_some {left right product : UInt32} :
    wordProduct? left right = some product ↔ product.toNat = left.toNat * right.toNat := by
  unfold wordProduct?
  constructor
  · intro found
    split at found
    · next small =>
      rw [← Option.some.inj found, UInt32.toNat_mul]
      exact Nat.mod_eq_of_lt small
    · cases found
  · intro exact
    have small : left.toNat * right.toNat < UInt32.size := exact ▸ product.toNat_lt
    rw [if_pos small]
    refine congrArg some (UInt32.toNat_inj.mp ?_)
    rw [UInt32.toNat_mul, exact]
    exact Nat.mod_eq_of_lt small

/-- There is no product where the exact one is too large for a word. -/
theorem wordProduct?_eq_none {left right : UInt32} :
    wordProduct? left right = none ↔ UInt32.size ≤ left.toNat * right.toNat := by
  unfold wordProduct?
  split
  · next small => simpa using small
  · next large => simpa using large

namespace Ty

/-- Whether there are objects of the type: functions are none, and neither is what nothing declares. -/
def isObject : Ty → Bool
  | .scalar .. | .array .. => true
  | .error | .function .. => false

/-- The size of an object is exact, and the object can be reached from its first byte to its last. -/
structure Sized (type : Ty) : Prop where
  /-- The size that is computed is the size of an element, times the length for an array. -/
  exact : type.size = type.bytes
  /-- There is at least one byte. -/
  positive : 1 ≤ type.bytes
  /-- There are no more than a signed displacement reaches. -/
  small : type.bytes ≤ objectCeiling

/-- Bytes that are kept for a local name, were they counted exactly: an undeclared one has a word. -/
def reserved : Ty → Nat
  | .error => 4
  | type => type.bytes

variable {specifier : Specifier} {indirection length : Nat}

/-- An element has between one byte and eight. -/
theorem elementSize_bounds (specifier : Specifier) (indirection : Nat) :
    1 ≤ elementSize specifier indirection ∧ elementSize specifier indirection ≤ 8 := by
  cases indirection with
  | zero => cases specifier <;> decide
  | succ => exact ⟨Nat.le_add_left 1 3, Nat.le_add_right 4 4⟩

/-- The size of an element is a word. -/
theorem toNat_elementSize (specifier : Specifier) (indirection : Nat) :
    (UInt32.ofNat (elementSize specifier indirection)).toNat = elementSize specifier indirection :=
  UInt32.toNat_ofNat_of_lt'
    (Nat.lt_of_le_of_lt (elementSize_bounds specifier indirection).2 (by decide))

theorem sized_scalar (specifier : Specifier) (indirection : Nat) :
    (Ty.scalar specifier indirection).Sized := by
  obtain ⟨some, few⟩ := elementSize_bounds specifier indirection
  exact ⟨rfl, some, Nat.le_trans few (by decide)⟩

theorem sized_array (nonempty : length ≠ 0)
    (small : length * elementSize specifier indirection ≤ objectCeiling) :
    (Ty.array specifier indirection length).Sized where
  -- The ceiling of objects is below the one at which sizes are held.
  exact := Nat.min_eq_left (Nat.le_trans small (by decide))
  positive := Nat.mul_pos (Nat.pos_of_ne_zero nonempty) (elementSize_bounds specifier indirection).1
  small := small

/-- What is kept for a local name is the exact size of an object. -/
theorem storageSize_eq_reserved {type : Ty} (sized : type.isObject = true → type.Sized) :
    storageSize type = type.reserved := by
  cases type with
  | error | function => rfl
  | scalar | array => exact (sized rfl).exact

/-- Whether an array may be declared is decided on the product of words: there must be one, and it must
not be above the ceiling. -/
theorem sizedArray?_words (specifier : Specifier) (indirection : Nat) (length : UInt32) :
    sizedArray? specifier indirection length.toNat =
      ((wordProduct? length (UInt32.ofNat (elementSize specifier indirection))).filter
        fun size => size.toNat ≤ objectCeiling).map
          fun _ => .array specifier indirection length.toNat := by
  have element := toNat_elementSize specifier indirection
  unfold sizedArray?
  -- A product that is no word is above the ceiling in any case.
  cases found : wordProduct? length (UInt32.ofNat (elementSize specifier indirection)) with
  | some size =>
    rw [wordProduct?_eq_some, element] at found
    rw [← found]
    split
    · next small => simp [Option.filter, small]
    · next large => simp [Option.filter, large]
  | none =>
    rw [wordProduct?_eq_none, element] at found
    have above : objectCeiling < UInt32.size := by decide
    rw [if_neg (by omega)]
    rfl

/-- The size of an array is the product of words, or the largest word where there is none. -/
theorem size_words (specifier : Specifier) (indirection : Nat) (length : UInt32) :
    (Ty.array specifier indirection length.toNat).size =
      ((wordProduct? length (UInt32.ofNat (elementSize specifier indirection))).getD (-1)).toNat := by
  have element := toNat_elementSize specifier indirection
  show min (length.toNat * elementSize specifier indirection) sizeCeiling = _
  cases found : wordProduct? length (UInt32.ofNat (elementSize specifier indirection)) with
  | some size =>
    have below := size.toNat_lt
    rw [wordProduct?_eq_some, element] at found
    rw [← found]
    exact Nat.min_eq_left (Nat.le_of_lt_succ below)
  | none =>
    rw [wordProduct?_eq_none, element] at found
    exact Nat.min_eq_right (Nat.le_trans (by decide) found)

/-- The size of an array that may be declared is a product of words, so the largest word does not stand
for it. -/
theorem Sized.words (sized : (Ty.array specifier indirection length).Sized) :
    ∃ words size : UInt32, words.toNat = length ∧
      wordProduct? words (UInt32.ofNat (elementSize specifier indirection)) = some size ∧
        size.toNat = (Ty.array specifier indirection length).bytes := by
  obtain ⟨some, -⟩ := elementSize_bounds specifier indirection
  have small : length * elementSize specifier indirection ≤ objectCeiling := sized.small
  -- No element is empty, so with the product below the ceiling the length is a word too.
  have below : objectCeiling < UInt32.size := by decide
  have few : length ≤ length * elementSize specifier indirection := Nat.le_mul_of_pos_right length some
  have counted : (UInt32.ofNat length).toNat = length := UInt32.toNat_ofNat_of_lt' (by omega)
  have taken : (UInt32.ofNat (length * elementSize specifier indirection)).toNat =
      length * elementSize specifier indirection := UInt32.toNat_ofNat_of_lt' (by omega)
  refine ⟨_, _, counted, ?_, taken⟩
  rw [wordProduct?_eq_some, toNat_elementSize, counted, taken]

end Ty

/-- Every variable that the grammar derives is small enough. -/
theorem Declarator.Derives.sized {specifier : Specifier} {start rest : List Token}
    {declarator : Declarator} (derived : declarator.Derives specifier start rest) :
    (declarator.type specifier).Sized := by
  cases derived with
  | scalar => exact Ty.sized_scalar _ _
  | array _ _ _ _ _ nonempty _ small => exact Ty.sized_array nonempty small

/-- Digits are read as the number that they denote, if that is below the bound. -/
theorem decimalBelow?_digits {bound : Nat} {text : String} (digits : Digits text.toList) :
    decimalBelow? bound text =
      if digitsValue text.toList < bound then some (digitsValue text.toList) else none := by
  obtain ⟨some, each⟩ := digits
  unfold decimalBelow?
  split
  · next rest signed =>
    -- The plus sign is no digit.
    have first := each '+' (by simp [signed])
    cases first
  · have all : text.toList.all Char.isDigit = true := List.all_eq_true.mpr each
    simp [some, all]

/-! What checking does to a table of symbols. -/

namespace SymbolTable

/-- What checking does to a table: scopes are opened and closed, perhaps emptied when they are, and
symbols are entered into the current scope or that of the unit. -/
inductive Edits : SymbolTable → SymbolTable → Prop where
  /-- Nothing. -/
  | refl (table : SymbolTable) : Edits table table
  /-- A scope is opened. -/
  | opening (table : SymbolTable) : Edits table table.openScope.2
  /-- The current scope is closed. -/
  | closing (table : SymbolTable) : Edits table table.closeScope.2
  /-- The current scope is closed, and its symbols are dropped. -/
  | emptying {table : SymbolTable} {scope : ScopeId} (current : table.current? = some scope) :
    Edits table (table.closeScope.2.discard scope)
  /-- A symbol is entered, with an exact size if it is an object. -/
  | entering {table : SymbolTable} {scope : ScopeId} {symbol : Symbol}
    (here : scope = unitScope ∨ table.current? = some scope)
    (sized : symbol.type.isObject = true → symbol.type.Sized) :
    Edits table (table.insert scope symbol).2
  /-- One thing after the other. -/
  | trans {first second third : SymbolTable} (early : Edits first second)
    (late : Edits second third) : Edits first third

/-- Every object that a table knows has an exact size. -/
def Exact (table : SymbolTable) : Prop :=
  ∀ scope, ∀ symbol ∈ table.symbolsOf scope, symbol.type.isObject = true → symbol.type.Sized

/-- The scopes below a bound are closed, except that of the unit. -/
structure Closed (table : SymbolTable) (bound : ScopeId) : Prop where
  /-- They have been opened. -/
  opened : bound ≤ table.scopes.length
  /-- None of them is in force. -/
  closed : ∀ scope ∈ table.active, scope = unitScope ∨ bound ≤ scope

/-- Two tables have the same symbols in the scopes below a bound, except that of the unit. -/
def Agrees (old new : SymbolTable) (bound : ScopeId) : Prop :=
  ∀ scope, scope ≠ unitScope → scope < bound → new.symbolsOf scope = old.symbolsOf scope

variable {old new table : SymbolTable} {scope bound : ScopeId}

/-- What is left when the symbols of a scope are dropped was there before. -/
theorem mem_symbolsOf_discard {other : ScopeId} {symbol : Symbol}
    (member : symbol ∈ (table.discard scope).symbolsOf other) : symbol ∈ table.symbolsOf other := by
  unfold discard at member
  rw [symbolsOf_modifySymbols] at member
  split at member
  · cases member
  · exact member

/-- Nothing is left of the symbols of the scope itself. -/
theorem symbolsOf_discard_self (table : SymbolTable) (scope : ScopeId) :
    (table.discard scope).symbolsOf scope = [] := by
  unfold discard
  rw [symbolsOf_modifySymbols]
  split
  · rfl
  · next absent =>
    exact symbolsOf_absent (Nat.le_of_not_lt fun present => absent ⟨rfl, present⟩)

/-- Changing the symbols of one scope opens no other. -/
@[simp] theorem length_modifySymbols (change : List Symbol → List Symbol) :
    (table.modifySymbols scope change).scopes.length = table.scopes.length := by
  simp [modifySymbols]

/-- All that checking adds is exact. -/
theorem Edits.exact (edits : old.Edits new) (exact : old.Exact) : new.Exact := by
  induction edits with
  | refl => exact exact
  | opening table =>
    intro scope symbol member
    rw [symbolsOf_openScope] at member
    exact exact scope symbol member
  | closing table => exact exact
  | emptying current =>
    exact fun scope symbol member => exact scope symbol (mem_symbolsOf_discard member)
  -- The symbol that is new is the only one that was not in the table.
  | entering here sized =>
    intro scope symbol member
    rcases mem_symbolsOf_insert member with before | ⟨-, rfl⟩
    · exact exact scope symbol before
    · exact sized
  | trans _ _ early late => exact late (early exact)

/-- The current scope is none of those that are closed. -/
theorem Closed.outside (isClosed : table.Closed bound)
    (here : scope = unitScope ∨ table.current? = some scope) : scope = unitScope ∨ bound ≤ scope :=
  here.elim .inl fun current => isClosed.closed scope (List.mem_of_mem_head? current)

/-- Changing the symbols of another scope leaves those of the closed ones alone. -/
theorem agrees_modifySymbols (outside : scope = unitScope ∨ bound ≤ scope)
    (change : List Symbol → List Symbol) : table.Agrees (table.modifySymbols scope change) bound := by
  intro other inner below
  rw [symbolsOf_modifySymbols, if_neg]
  rintro ⟨rfl, -⟩
  rcases outside with outer | above
  · exact inner outer
  · exact Nat.not_lt.mpr above below

/-- Checking keeps scopes closed, with the symbols that they have. -/
theorem Edits.closed (edits : old.Edits new) (isClosed : old.Closed bound) :
    new.Closed bound ∧ old.Agrees new bound := by
  induction edits with
  | refl => exact ⟨isClosed, fun _ _ _ => rfl⟩
  -- A new scope stands behind all the others, so it is not below the bound.
  | opening table =>
    refine ⟨⟨?_, List.forall_mem_cons.mpr ⟨.inr isClosed.opened, isClosed.closed⟩⟩, ?_⟩
    · exact Nat.le_trans isClosed.opened (by simp [openScope])
    · exact fun scope _ _ => symbolsOf_openScope table scope
  | closing table =>
    exact ⟨⟨isClosed.opened, fun scope member => isClosed.closed scope (List.mem_of_mem_tail member)⟩,
      fun _ _ _ => rfl⟩
  -- Only a scope that is current or was opened later is changed, and neither is below the bound.
  | @emptying table scope current =>
    refine ⟨⟨?_, fun scope member => isClosed.closed scope (List.mem_of_mem_tail member)⟩, ?_⟩
    · exact Nat.le_trans isClosed.opened (@length_modifySymbols table.closeScope.2 scope _).ge
    · exact @agrees_modifySymbols table.closeScope.2 _ _ (isClosed.outside (.inr current)) _
  | entering here =>
    refine ⟨⟨?_, isClosed.closed⟩, agrees_modifySymbols (isClosed.outside here) _⟩
    exact Nat.le_trans isClosed.opened (length_modifySymbols _).ge
  | trans _ _ early late =>
    obtain ⟨between, first⟩ := early isClosed
    obtain ⟨after, second⟩ := late between
    exact ⟨after, fun scope inner below => (second scope inner below).trans (first scope inner below)⟩

end SymbolTable

/-- The scope of parameters is emptied when it is closed. -/
theorem Checker.symbols_closeParameters {checker : Checker} {scope : ScopeId}
    (current : checker.symbols.current? = some scope) (inner : scope ≠ unitScope) :
    checker.closeParameters.symbols = checker.symbols.closeScope.2.discard scope := by
  have closed : checker.closeScope.1 = scope := congrArg (·.getD unitScope) current
  unfold closeParameters
  dsimp only
  rw [closed, if_neg inner]
  rfl

/-! Steps of checking. -/

/-- A step of checking that does nothing else to the table. -/
def Checking.Edits {α : Type} (step : Checking α) : Prop :=
  ∀ checker : Checker, checker.symbols.Edits (step checker).2.symbols

namespace Checking

variable {α β : Type} {step : Checking α} {name : String} {type : Ty}

/-- A step that leaves the table alone. -/
theorem edits_of_same (same : ∀ checker, (step checker).2.symbols = checker.symbols) : Edits step :=
  fun checker => (same checker).symm ▸ .refl _

theorem edits_pure (value : α) : Edits (pure value) := edits_of_same fun _ => rfl

theorem edits_get : Edits (get : Checking Checker) := edits_of_same fun _ => rfl

/-- What follows a step need only be good for the values that it gives. -/
theorem Edits.along (first : Edits step) {next : α → Checking β}
    (second : ∀ checker, Edits (next (step checker).1)) : Edits (step >>= next) :=
  fun checker => (first checker).trans (second checker (step checker).2)

theorem Edits.bind (first : Edits step) {next : α → Checking β}
    (second : ∀ value, Edits (next value)) : Edits (step >>= next) :=
  first.along fun _ => second _

theorem Edits.discard (first : Edits step) : Edits (Functor.discard step) := first

theorem edits_record (verdict : Verdict α) : Edits (Checker.record verdict) :=
  edits_of_same (Checker.symbols_record verdict)

theorem edits_mapM {item : β → Checking α} {things : List β}
    (each : ∀ thing ∈ things, Edits (item thing)) : Edits (things.mapM' item) := by
  induction things with
  | nil => exact edits_pure _
  | cons first rest ih =>
    obtain ⟨head, others⟩ := List.forall_mem_cons.mp each
    exact head.bind fun _ => (ih others).bind fun _ => edits_pure _

theorem edits_openScope : Edits Checker.openScope := fun checker => .opening checker.symbols

theorem edits_closeScope : Edits Checker.closeScope := fun checker => .closing checker.symbols

/-- A symbol is entered into the scope of the unit or the current one. -/
theorem edits_enter {checker : Checker} {scope : ScopeId}
    (here : scope = unitScope ∨ scope = checker.current)
    (sized : type.isObject = true → type.Sized) :
    checker.symbols.Edits (checker.enter scope name type).2.symbols := by
  refine .entering ?_ sized
  rcases here with outer | rfl
  · exact .inl outer
  · unfold Checker.current
    cases checker.symbols.current? with
    | none => exact .inl rfl
    | some scope => exact .inr rfl

theorem edits_declareVariable (sized : type.isObject = true → type.Sized) :
    Edits (Checker.declareVariable name type) := by
  intro checker
  unfold Checker.declareVariable
  dsimp only
  split
  · exact edits_enter (.inr rfl) sized
  · -- A second declaration is at most reported.
    split
    · exact .refl _
    · split <;> exact .refl _

theorem edits_declareFunction (function : type.isObject = false) :
    Edits (Checker.declareFunction name type) := by
  intro checker
  unfold Checker.declareFunction
  split
  · exact edits_enter (.inl rfl) fun object => Bool.noConfusion (function.symm.trans object)
  · split <;> exact .refl _

theorem edits_defineFunction (function : type.isObject = false) :
    Edits (Checker.defineFunction name type) := by
  -- Neither reports nor the names of functions with bodies are part of the table.
  have declares (known : Checker) : known.symbols.Edits (known.declareDefined name type).2.symbols :=
    edits_declareFunction function { known with defined := name :: known.defined }
  intro checker
  unfold Checker.defineFunction
  split
  · dsimp only
    split
    · exact .refl _
    · exact declares (checker.report (.redefinition name))
  · exact declares checker

theorem edits_resolve (name : String) : Edits (Checker.resolve name) := by
  intro checker
  unfold Checker.resolve
  split
  · exact .refl _
  · -- An unknown name is no object.
    exact @edits_enter _ _ (checker.report (.undeclared name)) _ (.inr rfl) fun object => nomatch object

theorem edits_closeParameters : Edits (modify Checker.closeParameters : Checking PUnit) := by
  intro checker
  change checker.symbols.Edits checker.closeParameters.symbols
  by_cases outer : checker.closeScope.1 = unitScope
  · unfold Checker.closeParameters
    dsimp only
    rw [if_pos outer]
    exact .closing _
  · -- There is a current scope, for otherwise that of the unit would be closed.
    cases current : checker.symbols.current? with
    | none => exact absurd (congrArg (·.getD unitScope) current) outer
    | some scope =>
      have same : checker.closeScope.1 = scope := congrArg (·.getD unitScope) current
      rw [Checker.symbols_closeParameters current (same ▸ outer)]
      exact .emptying current

end Checking

open Checking

/-! Expressions. -/

namespace Phrase

mutual

/-- Checking a phrase enters at most names that nothing declares. -/
theorem edits_elaborate : (phrase : Phrase) → Edits phrase.elaborate
  | .literal value => by
    rw [elaborate]
    exact edits_pure _
  | .name spelling => by
    rw [elaborate]
    exact (edits_resolve spelling).bind fun _ => edits_get.bind fun _ => edits_pure _
  | .call callee arguments => by
    rw [elaborate]
    exact (edits_resolve callee).bind fun symbol => (edits_elaborateAll arguments).bind
      fun values checker => edits_record (checkCall symbol _ values) checker
  | .unary sign operand => by
    rw [elaborate]
    exact operand.edits_elaborate.bind fun value => edits_record (sign.check value)
  | .sizeofType type => by
    rw [elaborate]
    exact edits_pure _
  | .subscript array index => by
    rw [elaborate]
    exact array.edits_elaborate.bind fun left => index.edits_elaborate.bind fun right =>
      edits_record (checkSubscript left right)
  | .step op operand => by
    rw [elaborate]
    exact operand.edits_elaborate.bind fun value => edits_record (checkStep op value)
  | .binary sign left right => by
    rw [elaborate]
    exact left.edits_elaborate.bind fun first => right.edits_elaborate.bind fun second =>
      edits_record (sign.check first second)

theorem edits_elaborateAll : (phrases : List Phrase) → Edits (elaborateAll phrases)
  | [] => by
    rw [elaborateAll]
    exact edits_pure _
  | first :: rest => by
    rw [elaborateAll]
    exact first.edits_elaborate.bind fun _ => (edits_elaborateAll rest).bind fun _ => edits_pure _

end

end Phrase

/-! Declarations. -/

theorem Declarator.Derives.edits {specifier : Specifier} {start rest : List Token}
    {declarator : Declarator} (derived : declarator.Derives specifier start rest) :
    Edits (declarator.elaborate specifier) :=
  (edits_declareVariable fun _ => derived.sized).discard

theorem Declaration.Derives.edits {start rest : List Token} {declaration : Declaration}
    (derived : declaration.Derives start rest) : Edits declaration.elaborate := by
  obtain ⟨_, declared, _⟩ := derived
  refine (edits_mapM fun declarator member => ?_).discard
  obtain ⟨_, _, derived⟩ := declared.each declarator member
  exact derived.edits

theorem edits_declarations {start rest : List Token} {declared : List Declaration}
    (run : Run Declaration.Derives start declared rest) :
    Edits (declared.mapM' Declaration.elaborate) := by
  refine edits_mapM fun declaration member => ?_
  obtain ⟨_, _, derived⟩ := run.each declaration member
  exact derived.edits

theorem Parameter.edits_elaborate (parameter : Parameter) : Edits parameter.elaborate :=
  (edits_declareVariable fun _ => Ty.sized_scalar _ _).discard.bind fun _ => edits_pure _

theorem Parameters.edits_elaborate (specifier : Specifier) (indirection : Nat)
    (parameters : Parameters) : Edits (parameters.elaborate specifier indirection) :=
  edits_openScope.bind fun _ => (edits_mapM fun parameter _ => parameter.edits_elaborate).bind
    fun _ => edits_pure _

/-- With its parameters, a function has the type of a function. -/
theorem Parameters.isObject_elaborate (specifier : Specifier) (indirection : Nat)
    (parameters : Parameters) (checker : Checker) :
    (parameters.elaborate specifier indirection checker).1.1.isObject = false :=
  congrArg Ty.isObject (elaborate_parameters specifier indirection parameters checker)

/-! Statements. -/

namespace Clause

theorem edits_elaborateTest (test : Phrase) : Edits (elaborateTest test) :=
  test.edits_elaborate.bind fun value => edits_record (checkTest value)

theorem edits_elaborateTurn {α : Type} {body : Checking α} (turn : Edits body) :
    Edits (elaborateTurn body) :=
  (edits_of_same fun _ => rfl : Edits (modify Checker.enterLoop : Checking PUnit)).bind fun _ =>
    turn.bind fun _ => (edits_of_same fun _ => rfl :
      Edits (modify Checker.leaveLoop : Checking PUnit)).bind fun _ => edits_pure _

theorem Assigns.edits {start rest : List Token} {clause : Clause}
    (assigns : Assigns start clause rest) : Edits clause.elaborate := by
  cases assigns with
  | @evaluate _ _ value =>
    rw [elaborate]
    exact value.edits_elaborate.bind fun _ => edits_pure _
  | @assign _ _ _ _ left right =>
    rw [elaborate]
    exact left.edits_elaborate.bind fun place => right.edits_elaborate.bind fun value =>
      edits_record (checkAssign place value)

mutual

/-- Checking a statement of the grammar enters no object that is too large. -/
theorem Derives.edits {start rest : List Token} {clause : Clause} :
    Derives start clause rest → Edits clause.elaborate
  | .simple assigns _ => assigns.edits
  | .breakLoop _ _ => by
    rw [elaborate]
    exact edits_get.bind fun checker => edits_record (checkBreak checker.loops)
  | @Derives.returnValue _ _ _ _ value _ _ _ => by
    rw [elaborate]
    exact value.edits_elaborate.bind fun value => edits_get.bind fun checker =>
      edits_record (checkReturn checker.returned value)
  | .block _ declares runs _ => by
    rw [elaborate]
    exact edits_openScope.bind fun _ => (edits_declarations declares).discard.bind fun _ =>
      (Derives.edits_run runs).bind fun _ => edits_closeScope.discard.bind fun _ => edits_pure _
  | @Derives.whileLoop _ _ _ _ test _ _ _ turn => by
    rw [elaborate]
    exact (edits_elaborateTest test).bind fun _ => (edits_elaborateTurn turn.edits).bind fun _ =>
      edits_pure _
  | @Derives.forLoop _ _ _ _ _ _ _ _ _ _ _ _ _ test _ _ starts _ _ _ steps _ turn => by
    rw [elaborate]
    exact starts.edits.bind fun _ => (edits_elaborateTest test).bind fun _ => steps.edits.bind fun _ =>
      (edits_elaborateTurn turn.edits).bind fun _ => edits_pure _
  | @Derives.ifThen _ _ _ _ test _ _ _ taken => by
    rw [elaborate]
    exact (edits_elaborateTest test).bind fun _ => taken.edits.bind fun _ => edits_pure _
  | @Derives.ifElse _ _ _ _ _ _ test _ _ _ _ taken _ _ other => by
    rw [elaborate]
    exact (edits_elaborateTest test).bind fun _ => taken.edits.bind fun _ => other.edits.bind fun _ =>
      edits_pure _

theorem Derives.edits_run {start rest : List Token} {clauses : List Clause} :
    Run Derives start clauses rest → Edits (elaborateAll clauses)
  | .nil _ => by
    rw [elaborateAll]
    exact edits_pure _
  | .cons head tail => by
    rw [elaborateAll]
    exact head.edits.bind fun _ => (Derives.edits_run tail).bind fun _ => edits_pure _

end

end Clause

/-! Units. -/

theorem GlobalDeclarator.Derives.edits {specifier : Specifier} {start rest : List Token}
    {declarator : GlobalDeclarator} (derived : declarator.Derives specifier start rest) :
    Edits (declarator.elaborate specifier) := by
  cases derived with
  | object derived => exact derived.edits
  | @prototype _ _ _ _ _ _ indirection parameters =>
    exact (parameters.edits_elaborate specifier indirection).along fun checker =>
      edits_closeParameters.bind fun _ =>
        (edits_declareFunction (parameters.isObject_elaborate specifier indirection checker)).discard

/-- What stands before the statements of a function is entered like the rest. -/
theorem Definition.edits_announce {definition : Definition} {declared body : List Token}
    (declares : Run Declaration.Derives declared definition.declared body) :
    Edits definition.announce := by
  obtain ⟨specifier, indirection, name, parameters, declarations, clauses⟩ := definition
  refine (parameters.edits_elaborate specifier indirection).along fun checker => ?_
  refine edits_get.bind fun known => (edits_of_same fun _ => rfl).bind fun _ => ?_
  exact (edits_defineFunction (parameters.isObject_elaborate specifier indirection checker)).bind
    fun _ => (edits_declarations declares).discard.bind fun _ => edits_pure _

/-- Checking a function with its body enters no object that is too large. -/
theorem Definition.edits_elaborate {definition : Definition} {declared body rest : List Token}
    (declares : Run Declaration.Derives declared definition.declared body)
    (runs : Run Clause.Derives body definition.body rest) : Edits definition.elaborate :=
  fun checker => (definition.edits_announce declares checker).trans
    ((Clause.Derives.edits_run runs _).trans (edits_closeScope _))

end SmallC
