import SmallC.Proofs.Lowering.Nodes
import SmallC.Proofs.Typing.Rules

/-! Forms: what an instruction may name as a constant and in memory, and the values that it may
read, write or take the address of. -/

namespace SmallC

/-- Whether an argument is a constant inside the instruction; the size of a frame is one. -/
def Argument.isConstant : Argument → Bool
  | .operand place => place.isImmediate
  | .frameSize _ => true
  | .register _ | .target _ | .callee _ => false

/-- The operand of an argument that is in memory. -/
def Argument.memory? : Argument → Option Operand
  | .operand place => if place.isImmediate then none else some place
  | _ => none

/-- The operands of an instruction that are in memory. -/
def Instruction.memory (instruction : Instruction) : List Operand :=
  instruction.arguments.filterMap Argument.memory?

theorem Instruction.mem_memory {instruction : Instruction} {place : Operand} :
    place ∈ instruction.memory ↔
      .operand place ∈ instruction.arguments ∧ place.isImmediate = false := by
  constructor
  · intro member
    obtain ⟨argument, listed, found⟩ := List.mem_filterMap.mp member
    -- Only an operand may stand for a place in memory.
    cases argument with
    | operand other =>
      simp only [Argument.memory?, Option.ite_none_left_eq_some, Option.some.injEq] at found
      obtain ⟨memory, rfl⟩ := found
      exact ⟨listed, Bool.eq_false_iff.mpr memory⟩
    | _ => cases found
  · rintro ⟨listed, memory⟩
    exact List.mem_filterMap.mpr ⟨_, listed, by simp [Argument.memory?, memory]⟩

namespace Opcode

/-- Whether an operation may have a constant for its source. -/
def takesConstant : Opcode → Bool
  | .movl | .cmpl | .addb | .addl | .subb | .subl | .imull => true
  | _ => false

/-- Whether an operation reads a value of the type from where it is. -/
def reads (type : Ty) : Opcode → Bool
  | .movb | .movsbl => Width.of type = .byte
  | .movl => Width.of type = .long
  -- The floating-point stack takes words, but neither addresses nor characters.
  | .fildl => type = .int
  | .fldl | .faddl | .fsubl | .fmull | .fdivl | .fcompl => Width.of type = .double
  | _ => false

/-- Whether an operation stores a value of the type where it is to be. -/
def stores (type : Ty) : Opcode → Bool
  | .movb => Width.of type = .byte
  | .movl => Width.of type = .long
  | .fstpl => Width.of type = .double
  | _ => false

end Opcode

/-- What may be done with the value of an expression where it is: no array is read, only storage is
written, and only of both the address is taken. -/
inductive Expression.Suits (value : Expression) : Opcode → Prop where
  /-- The value is read. -/
  | read {opcode : Opcode} (plain : value.type.isArray = false)
    (reads : opcode.reads value.type = true) : Suits value opcode
  /-- Another value is stored in its place. -/
  | write {opcode : Opcode} (storage : value.isLvalue = true)
    (stores : opcode.stores value.type = true) : Suits value opcode
  /-- Its address is taken. -/
  | address (placed : value.isLvalue = true ∨ value.type.isArray = true) : Suits value .leal

/-- What code may name in memory: the frame, the arguments of a call, what the pointer in one
register leads to, and values that have been computed, each with operations that suit it. -/
inductive Uses (values : List (Expression × Progress)) (through : Option Register)
    (opcode : Opcode) : Operand → Prop where
  /-- The frame. -/
  | frame (offset : Int) : Uses values through opcode (.frame offset)
  /-- The arguments of a call. -/
  | outgoing (offset : Nat) : Uses values through opcode (.outgoing offset)
  /-- What the register points to. -/
  | indirect {register : Register} (pointed : through = some register) :
    Uses values through opcode (.indirect register)
  /-- A computed value. -/
  | value {value : Expression × Progress} (listed : value ∈ values)
    (suits : value.1.Suits opcode) :
    Uses values through opcode (value.1.lowered value.2).value

/-- An instruction of a form that the assembler accepts, which uses its operands as it may. -/
structure Instruction.Formed (values : List (Expression × Progress)) (through : Option Register)
    (callee : Option String) (instruction : Instruction) : Prop where
  /-- At most one operand is in memory. -/
  single : instruction.memory.length ≤ 1
  /-- A constant is only a source, and only of an operation that may have one. -/
  constants : ∀ index argument, instruction.arguments[index]? = some argument →
    argument.isConstant = true →
      instruction.opcode.takesConstant = true ∧ index + 1 < instruction.arguments.length
  /-- What is in memory is used as it may be. -/
  uses : ∀ operand ∈ instruction.memory, Uses values through instruction.opcode operand
  /-- Only one function may be called. -/
  callees : ∀ name, .callee name ∈ instruction.arguments → callee = some name

/-- The place of a label, or an instruction of an accepted form. -/
def Item.Formed (values : List (Expression × Progress)) (through : Option Register)
    (callee : Option String) : Item → Prop
  | .code instruction => instruction.Formed values through callee
  | .mark _ => True
  | _ => False

/-- Code of labels and of instructions of accepted forms. -/
def Formed (values : List (Expression × Progress)) (through : Option Register)
    (callee : Option String) (code : Code) : Prop :=
  ∀ item ∈ code, item.Formed values through callee

section Shapes

variable {values : List (Expression × Progress)} {through : Option Register}
  {callee : Option String} {opcode : Opcode}

@[simp] theorem formed_nil : Formed values through callee [] := by simp [Formed]

@[simp] theorem formed_cons {item : Item} {code : Code} :
    Formed values through callee (item :: code) ↔
      item.Formed values through callee ∧ Formed values through callee code :=
  List.forall_mem_cons

@[simp] theorem formed_append {first second : Code} :
    Formed values through callee (first ++ second) ↔
      Formed values through callee first ∧ Formed values through callee second :=
  List.forall_mem_append

@[simp] theorem formed_mark (label : Label) :
    (Item.mark label).Formed values through callee := trivial

/-- An instruction with neither constants nor operands in memory. -/
theorem formed_plain {arguments : List Argument}
    (plain : ∀ argument ∈ arguments, argument.isConstant = false ∧ argument.memory? = none)
    (callees : ∀ name, .callee name ∈ arguments → callee = some name) :
    (operate opcode arguments).Formed values through callee := by
  -- Nothing in memory is named, so two of the demands are empty.
  have nothing : Instruction.memory ⟨opcode, arguments⟩ = [] :=
    List.filterMap_eq_nil_iff.mpr fun argument listed => (plain argument listed).2
  refine ⟨?_, fun index argument here constant => ?_, fun operand used => ?_, callees⟩
  · rw [nothing]
    exact Nat.zero_le _
  · rw [(plain argument (List.mem_of_getElem? here)).1] at constant
    cases constant
  · rw [nothing] at used
    cases used

@[simp] theorem formed_bare : (operate opcode []).Formed values through callee :=
  formed_plain (by simp) (by simp)

@[simp] theorem formed_register (register : Register) :
    (operate opcode [.register register]).Formed values through callee :=
  formed_plain (by simp [Argument.isConstant, Argument.memory?]) (by simp)

@[simp] theorem formed_registers (source target : Register) :
    (operate opcode [.register source, .register target]).Formed values through callee :=
  formed_plain (by simp [Argument.isConstant, Argument.memory?]) (by simp)

@[simp] theorem formed_target (label : Label) :
    (operate opcode [.target label]).Formed values through callee :=
  formed_plain (by simp [Argument.isConstant, Argument.memory?]) (by simp)

theorem formed_callee (name : String) :
    (operate opcode [.callee name]).Formed values through (some name) :=
  formed_plain (by simp [Argument.isConstant, Argument.memory?]) (by simp)

/-- An instruction with one operand in memory, no constant, and nothing to be called. -/
theorem formed_place {arguments : List Argument} {place : Operand}
    (named : arguments.filterMap Argument.memory? = [place])
    (plain : ∀ argument ∈ arguments, argument.isConstant = false)
    (callees : ∀ name, .callee name ∉ arguments) (uses : Uses values through opcode place) :
    (operate opcode arguments).Formed values through callee := by
  -- The one place that is named is the only one that has to be a value that is used.
  have memory : Instruction.memory ⟨opcode, arguments⟩ = [place] := named
  refine ⟨?_, fun index argument here constant => ?_, ?_, ?_⟩
  · rw [memory]
    exact Nat.le_refl _
  · rw [plain argument (List.mem_of_getElem? here)] at constant
    cases constant
  · rw [memory]
    exact List.forall_mem_singleton.mpr uses
  · exact fun name listed => absurd listed (callees name)

theorem Argument.memory_operand {place : Operand} (memory : place.isImmediate = false) :
    (Argument.operand place).memory? = some place := by
  simp [Argument.memory?, memory]

variable {place : Operand}

/-- The only argument of an instruction is in memory. -/
theorem formed_single (memory : place.isImmediate = false)
    (uses : Uses values through opcode place) :
    (operate opcode [.operand place]).Formed values through callee := by
  refine formed_place ?_ (by simpa [Argument.isConstant] using memory) (by simp) uses
  rw [List.filterMap_cons_some (Argument.memory_operand memory)]
  rfl

/-- An instruction goes from memory to a register. -/
theorem formed_read (memory : place.isImmediate = false)
    (uses : Uses values through opcode place) (register : Register) :
    (operate opcode [.operand place, .register register]).Formed values through callee := by
  refine formed_place ?_ (by simpa [Argument.isConstant] using memory) (by simp) uses
  rw [List.filterMap_cons_some (Argument.memory_operand memory)]
  rfl

/-- An instruction goes from a register to memory. -/
theorem formed_write (memory : place.isImmediate = false)
    (uses : Uses values through opcode place) (register : Register) :
    (operate opcode [.register register, .operand place]).Formed values through callee := by
  refine formed_place ?_ (by simpa [Argument.isConstant] using memory) (by simp) uses
  rw [List.filterMap_cons_none rfl, List.filterMap_cons_some (Argument.memory_operand memory)]
  rfl

/-- An instruction goes from a constant to a register or to memory. -/
theorem formed_constant {source target : Argument} (takes : opcode.takesConstant = true)
    (constant : source.isConstant = true) (other : target.isConstant = false)
    (uses : ∀ operand, target.memory? = some operand → Uses values through opcode operand)
    (direct : ∀ name, target ≠ .callee name) :
    (operate opcode [source, target]).Formed values through callee := by
  -- The constant is not in memory, so that only the target can be there.
  have bare : source.memory? = none := by
    cases source <;> simp_all [Argument.isConstant, Argument.memory?]
  have memory : Instruction.memory ⟨opcode, [source, target]⟩ = target.memory?.toList := by
    unfold Instruction.memory
    rw [List.filterMap_cons_none bare]
    cases found : target.memory? with
    | none => exact List.filterMap_cons_none found
    | some operand => exact List.filterMap_cons_some found
  refine ⟨?_, fun index argument here held => ?_, fun operand used => ?_, fun name listed => ?_⟩
  · rw [memory]
    cases target.memory? <;> simp
  · -- The constant is the first of two arguments, and the second one is none.
    rcases index with - | - | index
    · exact ⟨takes, Nat.lt_succ_self _⟩
    · obtain rfl := Option.some.inj here
      rw [other] at held
      cases held
    · cases here
  · rw [memory] at used
    exact uses operand (Option.mem_toList.mp used)
  · -- What is called is no constant.
    rcases List.mem_cons.mp listed with rfl | listed
    · cases constant
    · exact absurd (List.mem_singleton.mp listed).symm (direct name)

theorem formed_immediate (opcode : Opcode) (takes : opcode.takesConstant = true) (value : Nat)
    (register : Register) :
    (operate opcode [.operand (immediate value), .register register]).Formed values through
      callee :=
  formed_constant takes rfl rfl (by simp [Argument.memory?]) (by simp)

end Shapes

end SmallC
