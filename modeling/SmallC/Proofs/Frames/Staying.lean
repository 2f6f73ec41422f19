import SmallC.Proofs.Frames.Layout
import SmallC.Proofs.Scoping.Naming

/-! Staying: every piece of a function's code reads and writes only what it is about. -/

namespace SmallC

/-- A promoted type is not that of an array. -/
theorem Ty.isArray_of_promoted {type : Ty} (promoted : type.promote = type) :
    type.isArray = false := by
  cases type with
  | array => cases promoted
  | _ => rfl

theorem Ty.Testable.isArray {type : Ty} (testable : type.Testable) : type.isArray = false := by
  cases testable <;> rfl

theorem Ty.Arithmetic.isArray {type : Ty} (arithmetic : type.Arithmetic) :
    type.isArray = false := by
  cases arithmetic <;> rfl

theorem Ty.Converts.isArray {source target : Ty} (converts : source.Converts target) :
    source.isArray = false := by
  cases converts <;> rfl

/-- No operator works on arrays. -/
theorem BinaryOp.Types.isArray {op : BinaryOp} {left right result : Ty}
    (types : op.Types left right result) : left.isArray = false ∧ right.isArray = false := by
  cases types with
  | multiply number | divide number | add number | subtract number =>
    exact ⟨number.isArray, number.isArray⟩
  | compare _ promoted => exact ⟨Ty.isArray_of_promoted promoted, Ty.isArray_of_promoted promoted⟩
  | logicalAnd first second | logicalOr first second => exact ⟨first.isArray, second.isArray⟩
  | _ => exact ⟨rfl, rfl⟩

theorem width_size_pointer (specifier : Specifier) (indirection : Nat) :
    (Width.of (.scalar specifier (indirection + 1))).size = 4 := by
  simp [Width.of, Ty.isReal, Ty.char, Width.size]

/-- A value that is no array is at most as long as the storage of a variable or a parameter. -/
theorem width_size_le {type : Ty} (plain : type.isArray = false) :
    (Width.of type).size ≤ type.parameterBytes ∧
      (0 < storageSize type → (Width.of type).size ≤ storageSize type) := by
  -- An array has been excluded; a function is only ever pointed at and has no storage.
  cases type with
  | error => decide
  | scalar specifier indirection =>
    cases indirection with
    | zero => cases specifier <;> decide
    | succ depth =>
      rw [width_size_pointer]
      simp [Ty.parameterBytes, storageSize, Ty.size, Ty.elementSize]
  | array => cases plain
  | function =>
    refine ⟨?_, by simp [storageSize, Ty.size]⟩
    simp [Width.of, Ty.isReal, Ty.char, Width.size, Ty.parameterBytes]

variable {size : Nat} {slots others : List Slot}

namespace Expression

variable {symbols : SymbolTable} {progress : Progress}

/-- The value of a node can be read inside the slots, unless it is an array, which is never read. -/
def Readable (size : Nat) (slots : List Slot) (value : Expression × Progress) : Prop :=
  value.1.type.isArray = false →
    (value.1.lowered value.2).value.Fits size slots (Width.of value.1.type).size

/-- What leads to storage is a word. -/
theorem Readable.pointer {pointer : Expression} {pointed : Ty}
    (readable : Readable size slots (pointer, progress))
    (typed : (unary .dereference pointer pointed).Typed symbols) :
    (pointer.lowered progress).value.Fits size slots 4 := by
  cases typed with
  | unary _ types =>
    generalize kind : pointer.type = type at types
    cases types with
    | dereference specifier indirection =>
      have fits := readable (by rw [kind]; rfl)
      rwa [kind, width_size_pointer] at fits

/-- What is stored to or stepped is reached by way of a pointer, or in place. -/
theorem Readable.located {operand : Expression}
    (readable : Readable size slots (operand.target, progress)) (typed : operand.Typed symbols)
    (storage : operand.isLvalue = true) :
    Stays size slots (operand.located progress).place.resolve.1 ∧
      (operand.located progress).place.resolve.2.Fits size slots (Width.of operand.type).size := by
  -- Either a pointer is loaded and followed, or the place is that of the operand itself.
  rcases operand.target_cases with ⟨pointer, pointed, rfl⟩ | ⟨itself, direct⟩
  · have held : (pointer.lowered progress).value.Fits size slots 4 := readable.pointer typed
    refine ⟨?_, Operand.fits_of_none _ rfl⟩
    show Stays size slots [operate .movl [(pointer.lowered progress).value, Register.ecx]]
    simp [held, Opcode.accessed, Opcode.bytes]
  · obtain ⟨specifier, indirection, scalar⟩ := typed.scalar_of_lvalue storage
    rw [itself] at readable
    unfold Expression.located
    rw [lowerPlace_itself _ direct]
    exact ⟨stays_nil, readable (by rw [scalar]; rfl)⟩

/-- Taking an address reads at most the pointer that leads there. -/
theorem Readable.address {operand : Expression}
    (readable : Readable size slots (operand.target, progress)) (typed : operand.Typed symbols) :
    (loadAddress (operand.located progress).place).Stays size slots := by
  -- The pointer is the address if there is one; otherwise the address of the place is taken.
  rcases operand.target_cases with ⟨pointer, pointed, rfl⟩ | ⟨itself, direct⟩
  · have held : (pointer.lowered progress).value.Fits size slots 4 := readable.pointer typed
    show (operate .movl [(pointer.lowered progress).value, Register.eax]).Stays size slots
    simp [held, Opcode.accessed, Opcode.bytes]
  · unfold Expression.located
    rw [lowerPlace_itself _ direct]
    show (if (operand.lowered progress).value.isImmediate then _ else _ : Item).Stays size slots
    split
    · next constant =>
      have outside : (operand.lowered progress).value.offset? size = none := by
        revert constant
        cases (operand.lowered progress).value <;> simp [Operand.isImmediate, Operand.offset?]
      simp [Operand.fits_of_none 4 outside, Opcode.accessed, Opcode.bytes]
    · simp

/-- The own code of a node that is no call reads the values of its parts and writes its temporary,
and a conversion may use its scratch word. -/
theorem stays_own {expression : Expression} (typed : expression.Typed symbols)
    (strict : expression.isDecision = false)
    (other : ∀ callee arguments type, expression ≠ .call callee arguments type)
    (readable : ∀ value ∈ begun expression.parts progress, Readable size slots value)
    (kept : expression.isLeaf = false →
      (expression.result progress).Fits size slots (Width.of expression.type).size)
    (scratch : ∀ type place, expression.scratch? progress = some (.temporary type place) →
      (place.slot type).Fits size slots (Width.of type).size) :
    Stays size slots (expression.own progress) := by
  -- The address of storage and that of a first element are taken alike.
  have address {operand : Expression} {specifier : Specifier} {indirection : Nat}
      (readable : Readable size slots (operand.target, progress)) (typed : operand.Typed symbols)
      (kept : ((unary .address operand (.scalar specifier (indirection + 1))).result progress).Fits
        size slots (Width.of (.scalar specifier (indirection + 1))).size) :
      Stays size slots
        ((unary .address operand (.scalar specifier (indirection + 1))).own progress) := by
    rw [width_size_pointer] at kept
    rw [own_address, stays_cons, stays_cons]
    exact ⟨readable.address typed, stays_storeWord kept, stays_nil⟩
  cases typed with
  | integer | real | string | identifier => simp
  | call => exact absurd rfl (other _ _ _)
  | @unary op operand type typed types =>
    have kept := kept rfl
    have value (single : (unary op operand type).parts = [operand]) :
        Readable size slots (operand, progress) :=
      readable _ (by rw [single]; exact List.mem_singleton_self _)
    cases op with
    | not =>
      cases types with
      | not testable =>
        rw [own_not, stays_append]
        exact ⟨stays_compareZero (value rfl testable.isArray), stays_storeCondition _ kept⟩
    | negate =>
      cases types with
      | negate arithmetic =>
        rw [own_negate]
        exact stays_negation arithmetic (value rfl arithmetic.isArray) kept
    | dereference =>
      have held : (operand.lowered progress).value.Fits size slots 4 :=
        (value rfl).pointer (.unary typed types)
      rw [own_dereference, stays_cons]
      refine ⟨?_, stays_copyPointed kept⟩
      simp [held, Opcode.accessed, Opcode.bytes]
    | address => cases types
    | cast =>
      cases types with
      | cast converts =>
        rw [own_cast]
        refine stays_convertValue (value rfl converts.isArray) kept fun scratched => ?_
        exact scratch .int _ (by simp [scratch?, scratched])
  | address typed storage scalar =>
    exact address (readable _ (List.mem_singleton_self _)) typed (kept rfl)
  | decay typed array => exact address (readable _ (List.mem_singleton_self _)) typed (kept rfl)
  | @step op operand typed storage =>
    have target : Readable size slots (operand.target, progress) :=
      readable _ (List.mem_singleton_self _)
    obtain ⟨ready, named⟩ := target.located typed storage
    rw [own_step, stays_append]
    exact ⟨ready, stays_stepTarget op _ named (kept rfl)⟩
  | @binary op left right type first second types =>
    obtain ⟨plain, unmarked⟩ := types.isArray
    have before : Readable size slots (left, progress) := readable _ (by simp [begun, parts])
    have behind : Readable size slots (right, left.after progress) :=
      readable _ (by simp [begun, parts])
    rw [own_binary _ strict]
    exact stays_operateOn types (before plain) (behind unmarked) (kept rfl)

end Expression

/-! Sites. -/

/-- What the typing rules say about a site. -/
def Site.Typed (symbols : SymbolTable) : Site → Prop
  | .node expression _ => expression.Typed symbols ∧ expression.isDecision = false
  | .test value .. | .give value .. => value.type.isArray = false
  | .settle _ type _ => type = .int
  | .store left right _ =>
    left.Typed symbols ∧ left.isLvalue = true ∧ right.type = left.type
  | .enter .. | .bind .. | .mark _ | .jump _ => True

section Typed

variable {symbols : SymbolTable}

/-- The operands of a decision are tested, and it results in a word. -/
theorem Expression.Typed.decision {either : Bool} {left right : Expression} {type : Ty}
    (typed : (Expression.binary (decision either) left right type).Typed symbols) :
    left.type.Testable ∧ right.type.Testable ∧ type = .int := by
  cases either with
  | false =>
    cases typed with
    | binary _ _ types => cases types with
      | logicalAnd first second => exact ⟨first, second, rfl⟩
  | true =>
    cases typed with
    | binary _ _ types => cases types with
      | logicalOr first second => exact ⟨first, second, rfl⟩

theorem Statement.Typed.test {returned : Ty} {looping : Bool} {statement : Statement}
    (typed : statement.Typed symbols returned looping) {test : Expression}
    (tests : statement.test? = some test) : test.type.Testable := by
  cases typed <;> cases tests <;> assumption

theorem Expression.Owns.typed {node : Expression} {progress : Progress} {site : Site}
    (owns : node.Owns progress site) (typed : node.Typed symbols) : site.Typed symbols := by
  cases owns with
  | node strict => exact ⟨typed, strict⟩
  | enter => trivial
  | left same => exact (same ▸ typed).decision.1.isArray
  | right same => exact (same ▸ typed).decision.2.1.isArray
  | settle same => exact (same ▸ typed).decision.2.2

theorem Statement.Owns.typed {statement : Statement} {exits : Exits} {progress : Progress}
    {site : Site} {returned : Ty} {looping : Bool} (owns : statement.Owns exits progress site)
    (typed : statement.Typed symbols returned looping) : site.Typed symbols := by
  -- What is stored and what is given have the types that the statement was checked for.
  cases owns with
  | store same =>
    subst same
    cases typed with
    | assign place storage _ same => exact ⟨place, storage, same⟩
  | give same =>
    subst same
    cases typed with
    | returnValue _ same => exact Ty.isArray_of_promoted (by rw [same, Ty.promote_promote])
  | test tests => exact (typed.test tests).isArray
  | bind | mark | jump => trivial

/-- All sites of a typed function are typed. -/
theorem Function.Typed.sites {function : Function} {specifier : Specifier} {indirection : Nat}
    {parameters : List Ty} {variadic : Bool}
    (typed : function.Typed symbols specifier indirection parameters variadic) (nextLabel : Nat) :
    ∀ site ∈ function.sites symbols nextLabel, site.Typed symbols := by
  intro site member
  rcases function.origin symbols nextLabel site member with
    ⟨node, inside, progress, -, -, own⟩ | ⟨statement, around, progress, stands, own⟩
  · exact own.typed (typed.nodes node inside)
  · obtain ⟨looping, inner⟩ := typed.inside stands.listed
    exact own.typed inner

end Typed

section Pieces

variable {function : Function} {table symbols : SymbolTable} {objects : List Object}

/-- A temporary fits in its own place. -/
theorem fits_temporary {type : Ty} {progress : Progress}
    (listed : Object.temporary type progress ∈ objects) :
    (progress.slot type).Fits size (objects.map (function.slot table size))
      (Width.of type).size :=
  Operand.fits_frame (List.mem_map_of_mem listed) (.refl _)

/-- A node that is no decision leaves its value in its temporary. -/
theorem fits_result {expression : Expression} {progress : Progress}
    (strict : expression.isDecision = false) (listed : expression.home progress ∈ objects) :
    (expression.result progress).Fits size (objects.map (function.slot table size))
      (Width.of expression.type).size := by
  refine fits_temporary ?_
  rwa [Expression.home, strict] at listed

/-- Passing an argument reads its value and writes its slot. -/
theorem stays_passArgument {offset : Nat} {value : Operand} {width : Width}
    (fits : value.Fits size slots width.size)
    (kept : (Operand.outgoing offset).Fits size slots width.slotBytes) :
    Stays size slots (passArgument offset value width) := by
  unfold passArgument
  -- A double takes two words of its slot, and anything else one.
  split
  · next double =>
    rw [double] at fits kept
    simp only [Width.size, Width.slotBytes, if_true] at fits kept
    simp [fits, kept, Opcode.accessed, Opcode.bytes]
  · next word =>
    rw [Width.slotBytes, if_neg word] at kept
    simp [fits, kept, Opcode.accessed, Opcode.bytes]

/-- The values that a site reads are found where their objects are. -/
def Found (size : Nat) (slot : Object → Slot) (value : Expression × Progress) : Prop :=
  Expression.Readable size ((value.1.object? value.2).toList.map slot) value

theorem Found.readable {value : Expression × Progress} {slot : Object → Slot}
    (found : Found size slot value)
    (listed : (value.1.object? value.2).toList ⊆ objects) :
    Expression.Readable size (objects.map slot) value :=
  fun plain => (found plain).mono (List.map_subset _ listed)

/-- Arguments are passed inside their own places and slots. -/
theorem stays_passes {values : List (Expression × Progress)} (offset : Nat)
    (found : ∀ value ∈ values, Found size (function.slot table size) value)
    (plain : ∀ value ∈ values, value.1.type.isArray = false) :
    ∀ piece ∈ passes offset values,
      Stays size (piece.objects.map (function.slot table size)) piece.code := by
  induction values generalizing offset with
  | nil => simp [passes]
  | cons first rest ih =>
    rw [List.forall_mem_cons] at found plain
    intro piece listed
    -- The first piece passes the first value, and the others pass the rest further up.
    rcases List.mem_cons.mp listed with rfl | listed
    · refine stays_passArgument (found.1.readable (List.subset_cons_self _ _) plain.1) ?_
      intro reached same
      cases same
      exact ⟨_, List.mem_map_of_mem (List.mem_cons_self ..), .refl _⟩
    · exact ih _ found.2 plain.2 piece listed

theorem Expression.mem_of_begun {expressions : List Expression} {progress : Progress}
    {value : Expression × Progress} (listed : value ∈ begun expressions progress) :
    value.1 ∈ expressions ∧ value.1.sites value.2 <:+: sitesAll expressions progress := by
  induction expressions generalizing progress with
  | nil => cases listed
  | cons first rest ih =>
    rw [sitesAll]
    -- A value is begun where the sites of its expression stand.
    rcases List.mem_cons.mp listed with rfl | listed
    · exact ⟨List.mem_cons_self .., infix_left List.infix_rfl⟩
    · obtain ⟨member, stretch⟩ := ih listed
      exact ⟨List.mem_cons_of_mem _ member, infix_right stretch⟩

/-- The code of a typed site that is no call stays in the places of its objects. -/
theorem stays_code {site : Site} (typed : site.Typed symbols)
    (other : ∀ callee arguments type progress, site ≠ .node (.call callee arguments type) progress)
    (found : ∀ value ∈ site.consumed, Found size (function.slot table size) value) :
    Stays size (site.objects.map (function.slot table size)) site.code := by
  -- The objects of a site include those of all values that it reads.
  have readable {value : Expression × Progress} (listed : value ∈ site.consumed) :
      Expression.Readable size (site.objects.map (function.slot table size)) value := by
    refine (found value listed).readable fun object held => ?_
    exact List.mem_append_right _
      (List.mem_filterMap.mpr ⟨value, listed, Option.mem_toList.mp held⟩)
  have jumps (opcode : Opcode) (label : Label) :
      (operate opcode [.target label]).Stays size (site.objects.map (function.slot table size)) :=
    stays_operate.mpr (by simp)
  cases site with
  | node expression progress =>
    obtain ⟨typed, strict⟩ := typed
    have keeps {object : Object} (inner : expression.isLeaf = false)
        (held : object = expression.home progress ∨ expression.scratch? progress = some object) :
        object ∈ (Site.node expression progress).objects := by
      refine List.mem_append_left _ ?_
      simp only [Site.produced, Expression.keeps, inner, Bool.false_eq_true, if_false,
        List.mem_cons, Option.mem_toList]
      exact held
    refine Expression.stays_own typed strict (fun callee arguments type same => ?_)
      (fun value listed => readable listed) (fun inner => ?_) fun type place scratch => ?_
    · exact other callee arguments type progress (by rw [same])
    · exact fits_result strict (keeps inner (.inl rfl))
    · refine fits_temporary (keeps ?_ (.inr scratch))
      cases expression <;> first | rfl | cases scratch
  | test value progress opcode target =>
    rw [Site.code, stays_append, stays_cons]
    exact ⟨stays_compareZero (readable (List.mem_singleton_self _) typed), jumps _ _, stays_nil⟩
  | settle either type progress =>
    obtain rfl : type = .int := typed
    have kept : (progress.skip.skip.slot .int).Fits size
        ((Site.settle either .int progress).objects.map (function.slot table size)) 4 :=
      @fits_temporary size function table _ .int progress (List.mem_singleton_self _)
    simp [Site.code, kept, jumps, Opcode.accessed, Opcode.bytes]
  | store left right progress =>
    obtain ⟨place, storage, same⟩ := typed
    obtain ⟨specifier, indirection, scalar⟩ := place.scalar_of_lvalue storage
    have value := readable (List.mem_cons_self ..) (by rw [same, scalar]; rfl)
    have target : Expression.Readable size _ (left.target, right.after progress) :=
      readable (List.mem_cons_of_mem _ (List.mem_singleton_self _))
    obtain ⟨ready, named⟩ := target.located place storage
    rw [same] at value
    rw [Site.code, same]
    exact stays_storeValue value ready named rfl
  | give value progress exit =>
    rw [Site.code, stays_cons, stays_cons]
    exact ⟨stays_loadReturned (readable (List.mem_singleton_self _) typed), jumps _ _, stays_nil⟩
  | mark label => exact stays_cons.mpr ⟨stays_mark label, stays_nil⟩
  | jump label => exact stays_cons.mpr ⟨jumps _ _, stays_nil⟩
  | enter | bind => exact stays_nil

/-- Every piece of a typed site stays in the places of its objects. -/
theorem stays_pieces {site : Site} (typed : site.Typed symbols)
    (found : ∀ value ∈ site.consumed, Found size (function.slot table size) value) :
    ∀ piece ∈ site.pieces,
      Stays size (piece.objects.map (function.slot table size)) piece.code := by
  -- Only the code of a call is cut further, so that each argument has a piece of its own.
  by_cases call : ∃ callee arguments type progress,
      site = .node (.call callee arguments type) progress
  · obtain ⟨callee, arguments, type, progress, rfl⟩ := call
    obtain ⟨typed, strict⟩ := typed
    have promoted : ∀ argument ∈ arguments, argument.type.promote = argument.type := by
      cases typed with
      | call _ _ _ promoted _ => exact promoted
    intro piece listed
    rcases List.mem_append.mp listed with passed | last
    · refine stays_passes 0 found (fun value listed => ?_) piece passed
      exact Ty.isArray_of_promoted (promoted _ (Expression.mem_of_begun listed).1)
    · rw [List.mem_singleton.mp last, stays_cons, stays_cons]
      have kept := @fits_result size function table _ _ progress strict
        (List.mem_singleton_self ((Expression.call callee arguments type).home progress))
      exact ⟨stays_operate.mpr (by simp), stays_storeReturned kept, stays_nil⟩
  · have other := fun callee arguments type progress same =>
      call ⟨callee, arguments, type, progress, same⟩
    rw [Site.pieces_of_other other, List.forall_mem_singleton]
    exact stays_code typed other found

end Pieces

end SmallC
