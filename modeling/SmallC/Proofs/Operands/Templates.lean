import SmallC.Proofs.Operands.Forms

/-! Templates: the instructions that are emitted for computed values are of accepted forms. -/

namespace SmallC

attribute [local simp] Lowering.pure_eq Lowering.map_eq Lowering.bind_eq Lowering.temporary_eq

variable {values : List (Expression × Progress)} {through : Option Register}
  {callee : Option String}

/-- A value of the type that may be read where it is; only whole numbers are constants. -/
structure Reads (values : List (Expression × Progress)) (through : Option Register) (type : Ty)
    (value : Operand) : Prop where
  /-- A constant is a whole number. -/
  constant : value.isImmediate = true → type = .int
  /-- Any other value may be read in memory. -/
  memory : value.isImmediate = false → ∀ opcode, opcode.reads type = true →
    Uses values through opcode value

/-- A place in memory that is nobody else's, so that anything may be done with it. -/
structure Free (values : List (Expression × Progress)) (through : Option Register)
    (place : Operand) : Prop where
  /-- The place is in memory. -/
  memory : place.isImmediate = false
  /-- Every operation may use it. -/
  uses : ∀ opcode, Uses values through opcode place

/-- Storage of the type, which may be read and written. -/
structure Storage (values : List (Expression × Progress)) (through : Option Register) (type : Ty)
    (target : Operand) : Prop where
  /-- Storage is in memory. -/
  memory : target.isImmediate = false
  /-- It may be read and written. -/
  uses : ∀ opcode, opcode.reads type = true ∨ opcode.stores type = true →
    Uses values through opcode target

@[simp] theorem free_frame (offset : Int) : Free values through (.frame offset) :=
  ⟨rfl, fun _ => .frame offset⟩

@[simp] theorem free_outgoing (offset : Nat) : Free values through (.outgoing offset) :=
  ⟨rfl, fun _ => .outgoing offset⟩

@[simp] theorem free_slot (progress : Progress) (type : Ty) :
    Free values through (progress.slot type) := free_frame _

theorem free_indirect {register : Register} (pointed : through = some register) :
    Free values through (.indirect register) :=
  ⟨rfl, fun _ => .indirect pointed⟩

/-- A number or a pointer is a word, a byte or a floating-point number, as its type says. -/
theorem width_of_real {type : Ty} (real : type.isReal = true) : Width.of type = .double := by
  simp [Width.of, real]

theorem width_of_word {type : Ty} (word : type.isReal = false) : Width.of type ≠ .double := by
  unfold Width.of
  rw [if_neg (Bool.eq_false_iff.mp word)]
  split <;> simp

section Templates

variable {value left right result target : Operand} {type : Ty} {opcode : Opcode}

theorem Free.single (free : Free values through value) :
    (operate opcode [.operand value]).Formed values through callee :=
  formed_single free.memory (free.uses opcode)

theorem Free.read (free : Free values through value) (register : Register) :
    (operate opcode [.operand value, .register register]).Formed values through callee :=
  formed_read free.memory (free.uses opcode) register

theorem Free.write (free : Free values through value) (register : Register) :
    (operate opcode [.register register, .operand value]).Formed values through callee :=
  formed_write free.memory (free.uses opcode) register

/-- What is no whole number is in memory. -/
theorem Reads.inMemory (reads : Reads values through type value) (other : type ≠ .int) :
    value.isImmediate = false :=
  Bool.eq_false_iff.mpr (mt reads.constant other)

theorem ne_int_of_width {width : Width} (given : Width.of type = width) (other : width ≠ .long) :
    type ≠ .int := by
  rintro rfl
  exact other given.symm

/-- An operation reads a value that is no whole number as its only operand. -/
theorem Reads.single (reads : Reads values through type value) (other : type ≠ .int)
    (suits : opcode.reads type = true) :
    (operate opcode [.operand value]).Formed values through callee :=
  formed_single (reads.inMemory other) (reads.memory (reads.inMemory other) opcode suits)

/-- A floating-point number is an operand of the floating-point operations. -/
theorem Reads.real (reads : Reads values through type value) (width : Width.of type = .double)
    (opcode : Opcode) (suits : opcode.reads .double = true) :
    (operate opcode [.operand value]).Formed values through callee := by
  refine reads.single (ne_int_of_width width (by simp)) ?_
  -- Only operations on floating-point numbers read one.
  cases opcode <;> simp_all [Opcode.reads, Width.of, Ty.isReal, Ty.double, Ty.char, Ty.int]

/-- A value can be loaded unless it is a floating-point number. -/
theorem formed_load (reads : Reads values through type value) (word : Width.of type ≠ .double)
    (register : Register) : (load value (.of type) register).Formed values through callee := by
  unfold load
  split
  · next byte =>
    -- A byte is extended to a word, which takes it from memory.
    have memory := Bool.eq_false_iff.mpr byte.2
    exact formed_read memory (reads.memory memory .movsbl (by simp [Opcode.reads, byte.1])) register
  · next other =>
    cases held : value.isImmediate with
    | true => exact formed_constant rfl held rfl (by simp [Argument.memory?]) (by simp)
    | false =>
      refine formed_read held (reads.memory held .movl ?_) register
      cases width : Width.of type <;> simp_all [Opcode.reads]

theorem formed_compareZero (reads : Reads values through type value) :
    Formed values through callee (compareZero value type) := by
  unfold compareZero
  split
  · next real => simp [reads.real (width_of_real real) .fldl rfl]
  · next other =>
    simp [formed_load reads (width_of_word (Bool.eq_false_iff.mpr other)) .eax,
      formed_immediate .cmpl rfl]

theorem formed_storeCondition (opcode : Opcode) (kept : Free values through result) :
    Formed values through callee (storeCondition opcode result) := by
  simp [storeCondition, kept.write]

theorem formed_scaleBy (scale : Nat) (register : Register) :
    Formed values through callee (scaleBy scale register) := by
  unfold scaleBy
  split
  · simp [formed_immediate .imull rfl]
  · exact formed_nil

@[simp] theorem formed_divideWords : Formed values through callee divideWords := by
  simp [divideWords]

@[simp] theorem formed_onWords (opcode : Opcode) :
    Formed values through callee (onWords opcode) := by
  simp [onWords]

theorem formed_loadBoth {leftType rightType : Ty} (first : Reads values through leftType left)
    (second : Reads values through rightType right) (word : Width.of leftType ≠ .double)
    (other : Width.of rightType ≠ .double) (scaleLeft scaleRight : Nat) :
    Formed values through callee (loadBoth left right leftType rightType scaleLeft scaleRight) := by
  simp [loadBoth, formed_load first word, formed_load second other, formed_scaleBy]

theorem formed_storeWord (kept : Free values through result) :
    (storeWord result).Formed values through callee := kept.write _

/-- An arithmetic operator works on floating-point numbers in memory, and on words in registers. -/
theorem formed_arithmetic {real : Opcode} {words : Code} {leftType rightType : Ty}
    (suits : real.reads .double = true) (inside : Formed values through callee words)
    (first : Reads values through leftType left) (second : Reads values through rightType right)
    (kept : Free values through result)
    (reals : type.isReal = true → leftType = type ∧ rightType = type)
    (others : type.isReal = false → Width.of leftType ≠ .double ∧ Width.of rightType ≠ .double)
    (scaleLeft scaleRight : Nat) :
    Formed values through callee (arithmetic real words type left right result leftType rightType
      scaleLeft scaleRight) := by
  unfold arithmetic
  -- The type of the result decides, and the operands have agreed on it.
  split
  · next isReal =>
    obtain ⟨rfl, rfl⟩ := reals isReal
    have width := width_of_real isReal
    simp [realOperation, first.real width .fldl rfl, second.real width _ suits,
      kept.single]
  · next other =>
    obtain ⟨word, word'⟩ := others (Bool.eq_false_iff.mpr other)
    simp [formed_loadBoth first second word word', inside, formed_storeWord kept]

theorem formed_countElements (scale : Nat) (kept : Free values through result) :
    Formed values through callee (countElements scale result) := by
  unfold countElements
  split
  · simp [kept.read, formed_immediate .movl rfl, formed_storeWord kept]
  · exact formed_nil

theorem formed_compareValues (relation : Comparison) (first : Reads values through type left)
    (second : Reads values through type right) (kept : Free values through result) :
    Formed values through callee (compareValues relation type type left right result) := by
  unfold compareValues
  rw [formed_append]
  refine ⟨?_, formed_storeCondition _ kept⟩
  -- Both values have one type, which is real or fits in a register.
  split
  · next real =>
    have width := width_of_real real
    simp [first.real width .fldl rfl, second.real width .fcompl rfl]
  · next other =>
    have word := width_of_word (Bool.eq_false_iff.mpr other)
    simp [formed_load first word, formed_load second word]

/-- A strict operator works on values of its types. -/
theorem formed_operateOn {op : BinaryOp} {leftType rightType : Ty}
    (types : op.Types leftType rightType type) (first : Reads values through leftType left)
    (second : Reads values through rightType right) (kept : Free values through result) :
    Formed values through callee (operateOn op type leftType rightType left right result) := by
  -- What is no floating-point number is a word, whether it is a number or a pointer.
  have number {type : Ty} (other : type.isReal = false) :
      Width.of type ≠ .double ∧ Width.of type ≠ .double :=
    ⟨width_of_word other, width_of_word other⟩
  have pointer (specifier : Specifier) (indirection : Nat) :
      (Ty.scalar specifier (indirection + 1)).isReal = false := by simp [Ty.isReal]
  have word : Width.of .int ≠ .double := by decide
  cases types with
  | multiply | divide | add =>
    exact formed_arithmetic rfl (by simp) first second kept (fun _ => ⟨rfl, rfl⟩) number _ _
  | addRight specifier indirection =>
    exact formed_arithmetic rfl (by simp) first second kept (by simp [Ty.isReal])
      (fun _ => ⟨width_of_word (pointer _ _), word⟩) _ _
  | addLeft specifier indirection =>
    exact formed_arithmetic rfl (by simp) first second kept (by simp [Ty.isReal])
      (fun _ => ⟨word, width_of_word (pointer _ _)⟩) _ _
  | subtract =>
    refine formed_append.mpr ⟨?_, formed_countElements _ kept⟩
    exact formed_arithmetic rfl (by simp) first second kept (fun _ => ⟨rfl, rfl⟩) number _ _
  | subtractRight specifier indirection =>
    refine formed_append.mpr ⟨?_, formed_countElements _ kept⟩
    exact formed_arithmetic rfl (by simp) first second kept (by simp [Ty.isReal])
      (fun _ => ⟨width_of_word (pointer _ _), word⟩) _ _
  | difference specifier indirection =>
    refine formed_append.mpr ⟨?_, formed_countElements _ kept⟩
    exact formed_arithmetic rfl (by simp) first second kept (by simp [Ty.isReal, Ty.int])
      (fun _ => ⟨width_of_word (pointer _ _), width_of_word (pointer _ _)⟩) _ _
  | remainder =>
    simp [operateOn, formed_loadBoth first second word word, kept.write]
  | compare relation => exact formed_compareValues relation first second kept
  | logicalAnd | logicalOr => exact formed_nil

theorem formed_negation (arithmetic : type.Arithmetic) (reads : Reads values through type value)
    (kept : Free values through result) :
    Formed values through callee (Expression.negation type type value result) := by
  cases arithmetic with
  | int =>
    simp [Expression.negation, Ty.isReal, Ty.int, formed_storeWord kept]
    exact formed_load reads (by decide) .eax
  | double =>
    simp [Expression.negation, Ty.isReal, Ty.double, reads.real rfl .fldl rfl,
      kept.single]

theorem formed_storeReturned (type : Ty) (kept : Free values through result) :
    (storeReturned type result).Formed values through callee := by
  unfold storeReturned
  split
  · exact kept.single
  · exact kept.write _
  · exact kept.write _

theorem formed_copyPointed (pointed : through = some .eax) (type : Ty)
    (kept : Free values through result) :
    Formed values through callee (copyPointed type result) := by
  have behind : Free values through (.indirect .eax) := free_indirect pointed
  unfold copyPointed
  dsimp only
  split <;> simp [behind.single, behind.read, kept.single, kept.write]

/-- Stepping reads and writes storage of the type. -/
theorem formed_stepTarget (op : StepOp) (scale : Nat) (storage : Storage values through type target)
    (kept : Free values through result) :
    Formed values through callee (stepTarget op scale type target result) := by
  have single {opcode : Opcode} (suits : opcode.reads type = true ∨ opcode.stores type = true) :
      (operate opcode [.operand target]).Formed values through callee :=
    formed_single storage.memory (storage.uses opcode suits)
  have taken {opcode : Opcode} (suits : opcode.reads type = true) (register : Register) :
      (operate opcode [.operand target, .register register]).Formed values through callee :=
    formed_read storage.memory (storage.uses opcode (.inl suits)) register
  have given {opcode : Opcode} (suits : opcode.stores type = true) (register : Register) :
      (operate opcode [.register register, .operand target]).Formed values through callee :=
    formed_write storage.memory (storage.uses opcode (.inr suits)) register
  -- All four steps have the same shape in each of the three widths.
  cases op <;> unfold stepTarget <;> dsimp only <;> split <;> next width =>
    simp [single, taken, given, kept.single, kept.write, Opcode.reads, Opcode.stores, width,
      formed_immediate .addb rfl, formed_immediate .subb rfl, formed_immediate .addl rfl,
      formed_immediate .subl rfl]

/-- A place that is stored to: storage itself, or what a pointer leads to by way of the second
register. -/
inductive Reached (values : List (Expression × Progress)) (through : Option Register) (type : Ty) :
    Place → Prop where
  /-- The storage is at hand. -/
  | direct {operand : Operand} (storage : Storage values through type operand) :
    Reached values through type (.direct operand)
  /-- A pointer leads there. -/
  | indirect {pointer : Operand} {kind : Ty} (word : Width.of kind = .long)
    (reads : Reads values through kind pointer) (pointed : through = some .ecx) :
    Reached values through type (.indirect pointer)

/-- A word can be moved to a register, be it a constant or in memory. -/
theorem formed_word (reads : Reads values through type value) (word : Width.of type = .long)
    (register : Register) :
    (operate .movl [.operand value, .register register]).Formed values through callee := by
  cases held : value.isImmediate with
  | true => exact formed_constant rfl held rfl (by simp [Argument.memory?]) (by simp)
  | false =>
    exact formed_read held (reads.memory held .movl (by simp [Opcode.reads, word])) register

theorem formed_resolve {place : Place} (reached : Reached values through type place) :
    Formed values through callee place.resolve.1 ∧
      Storage values through type place.resolve.2 := by
  cases reached with
  | direct storage => exact ⟨formed_nil, storage⟩
  | indirect word reads pointed =>
    have free : Free values through (.indirect .ecx) := free_indirect pointed
    refine ⟨formed_cons.mpr ⟨formed_word reads word .ecx, formed_nil⟩, free.memory, ?_⟩
    exact fun opcode _ => free.uses opcode

/-- Storing reads a value and writes storage of its type. -/
theorem formed_storeValue {place : Place} (reads : Reads values through type value)
    (reached : Reached values through type place) :
    Formed values through callee (storeValue type type place value) := by
  obtain ⟨ready, storage⟩ := @formed_resolve values through callee type place reached
  unfold storeValue
  dsimp only
  -- The value is taken, the pointer is made ready, and the value is put there, in each width.
  split
  · next width =>
    have kept : (operate .fstpl [.operand place.resolve.2]).Formed values through callee :=
      formed_single storage.memory (storage.uses .fstpl (.inr (by simp [Opcode.stores, width])))
    simp [reads.real width .fldl rfl, ready, kept]
  · next width =>
    have memory := reads.inMemory (ne_int_of_width width (by simp))
    have taken : (operate .movb [.operand value, .register .al]).Formed values through callee :=
      formed_read memory (reads.memory memory .movb (by simp [Opcode.reads, width])) .al
    have given :
        (operate .movb [.register .al, .operand place.resolve.2]).Formed values through callee :=
      formed_write storage.memory (storage.uses .movb (.inr (by simp [Opcode.stores, width]))) .al
    simp [taken, ready, given]
  · next width =>
    have given :
        (operate .movl [.register .eax, .operand place.resolve.2]).Formed values through callee :=
      formed_write storage.memory (storage.uses .movl (.inr (by simp [Opcode.stores, width]))) .eax
    simp [formed_load reads (by simp [width] : Width.of type ≠ .double) .eax, ready, given]

theorem formed_loadReturned (reads : Reads values through type value) :
    (loadReturned type value).Formed values through callee := by
  unfold loadReturned
  split
  · next width => exact reads.real width .fldl rfl
  · next other => exact formed_load reads other .eax

/-- The conversions of a word to a floating-point number are those of whole numbers. -/
theorem Ty.Converts.eq_int {source target : Ty} (converts : source.Converts target)
    (word : Width.of source = .long) (real : Width.of target = .double) : source = .int := by
  cases converts with
  | @numbers source target =>
    cases source with
    | int => rfl
    | char | double => cases word
  | toPointer => rfl
  | pointers | fromPointer => simp [Width.of, Ty.isReal, Ty.char, Ty.int] at real

/-- A conversion may go through a word of its own. -/
theorem formed_convertValue {source target : Ty} (converts : source.Converts target)
    (reads : Reads values through source value) (kept : Free values through result)
    (progress : Progress) :
    Formed values through callee (convertValue source target value result progress).1 := by
  have loaded (word : Width.of source ≠ .double) :=
    @formed_load values through callee _ _ reads word .eax
  have real (width : Width.of source = .double) :=
    @Reads.real values through callee _ _ reads width .fldl rfl
  have scratch := @free_slot values through progress .int
  unfold convertValue
  -- One sequence for each pair of widths.
  cases given : Width.of source <;> cases wanted : Width.of target <;>
    simp only [given] at loaded real
  case double.double | double.long => simp [real, kept.single]
  case double.byte => simp [real, scratch.single, scratch.read, kept.write]
  case byte.double => simp [loaded, formed_storeWord scratch, scratch.single, kept.single]
  case long.double =>
    -- Only a constant cannot be pushed from where it is.
    cases constant : value.isImmediate with
    | true => simp [loaded, formed_storeWord scratch, scratch.single, kept.single]
    | false =>
      have whole := converts.eq_int given wanted
      have pushed : (operate .fildl [.operand value]).Formed values through callee :=
        formed_single constant (reads.memory constant .fildl (by simp [Opcode.reads, whole]))
      simp [pushed, kept.single]
  case byte.long | long.long => simp [loaded, formed_storeWord kept]
  case byte.byte | long.byte => simp [loaded, kept.write]

/-- Arguments are passed as values of their types. -/
theorem formed_passArguments (offset : Nat) {arguments : List (Operand × Width)}
    (readable : ∀ argument ∈ arguments, ∃ type, argument.2 = .of type ∧
      Reads values through type argument.1) :
    Formed values through callee (passArguments offset arguments) := by
  -- Each argument goes to the place behind the arguments before it.
  induction arguments generalizing offset with
  | nil => exact formed_nil
  | cons first rest ih =>
    obtain ⟨value, width⟩ := first
    rw [List.forall_mem_cons] at readable
    obtain ⟨⟨type, rfl, reads⟩, others⟩ := readable
    have slot := @free_outgoing values through offset
    unfold passArguments
    split
    · next real => simp [reads.real real .fldl rfl, slot.single, ih _ others]
    · next word => simp [formed_load reads word .eax, slot.write, ih _ others]

end Templates

end SmallC
