import SmallC.Proofs.Words.Meaning

/-! Straight code on words: what it brings into registers and what it leaves in the frame. -/

namespace SmallC

variable {layout : Layout} {state : Processor}

/-- Straight code run to its end, unless something traps. -/
def Layout.execute (layout : Layout) : Code → Processor → Option Processor
  | [], state => some state
  | .code instruction :: rest, state => (state.act? layout instruction).bind (layout.execute rest)
  | _ :: rest, state => layout.execute rest state

/-- Code that is run to its end is visited so. -/
theorem visit_of_execute {code : Code} {before after : Processor}
    (executed : layout.execute code before = some after) :
    layout.machine.visit code before .onward after := by
  -- Along the code, every instruction acts, and labels are passed over.
  induction code generalizing before with
  | nil =>
    cases executed
    exact ⟨rfl, rfl⟩
  | cons item rest ih =>
    cases item with
    | code instruction =>
      simp only [Layout.execute, Option.bind_eq_some_iff] at executed
      obtain ⟨between, acted, executed⟩ := executed
      have acts : layout.machine.act instruction before = some between := acted
      simp only [Machine.visit, acts]
      exact ih executed
    | _ => exact ih executed

@[simp] theorem execute_nil : layout.execute [] state = some state := rfl

@[simp] theorem execute_operate (opcode : Opcode) (arguments : List Argument) (rest : Code) :
    layout.execute (operate opcode arguments :: rest) state =
      (state.act? layout ⟨opcode, arguments⟩).bind (layout.execute rest) := rfl

theorem execute_append (first second : Code) : layout.execute (first ++ second) state =
    (layout.execute first state).bind (layout.execute second) := by
  -- Along the first stretch, with the second one kept behind it.
  induction first generalizing state with
  | nil => rfl
  | cons item rest ih =>
    cases item with
    | code instruction =>
      simp only [List.cons_append, Layout.execute, Option.bind_assoc]
      congr 1
      funext between
      exact ih
    | _ => exact ih

namespace Processor

/-- The word that loading an operand of the width brings. -/
def loads? (layout : Layout) (state : Processor) (operand : Operand) (width : Width) :
    Option (BitVec 32) :=
  if width = .byte ∧ ¬ operand.isImmediate then
    (state.getByte? layout operand).map (BitVec.signExtend 32)
  else state.getWord? layout operand

/-- The operand has the value whatever the first three registers hold. -/
def Shows (layout : Layout) (state : Processor) (operand : Operand) (width : Width)
    (value : BitVec 32) : Prop :=
  ∀ other : Processor, other.ebp = state.ebp → other.memory = state.memory →
    other.loads? layout operand width = some value

/-- Only the first three registers and the conditions differ. -/
structure Beside (old new : Processor) : Prop where
  /-- The base of the frame is the same. -/
  ebp : new.ebp = old.ebp
  /-- The end of the frame is the same. -/
  esp : new.esp = old.esp
  /-- Memory is the same. -/
  memory : new.memory = old.memory

theorem Beside.trans {first second third : Processor} (early : first.Beside second)
    (late : second.Beside third) : first.Beside third :=
  ⟨late.ebp.trans early.ebp, late.esp.trans early.esp, late.memory.trans early.memory⟩

/-- The state after a value has been stored in the frame. -/
def stored (state : Processor) (offset : Int) (size : Nat) (value : BitVec 32) : Processor :=
  { state with memory := state.memory.write (state.ebp + BitVec.ofInt 32 offset) size value }

end Processor

/-- The code brings the value into the first register and changes nothing that lasts. -/
def Brings (layout : Layout) (code : Code) (before : Processor) (value : BitVec 32) : Prop :=
  ∃ after, layout.execute code before = some after ∧ before.Beside after ∧ after.eax = value

/-- The code leaves the value in the frame and changes nothing else that lasts. -/
def Stores (layout : Layout) (code : Code) (before : Processor) (offset : Int) (size : Nat)
    (value : BitVec 32) : Prop :=
  ∃ after, layout.execute code before = some after ∧ after.ebp = before.ebp ∧
    after.esp = before.esp ∧
    after.memory = before.memory.write (before.ebp + BitVec.ofInt 32 offset) size value

/-- Loading brings the value of the operand. -/
theorem execute_load {operand : Operand} {width : Width} {value : BitVec 32}
    (loads : state.loads? layout operand width = some value) (register : Register)
    (rest : Code) : layout.execute (load operand width register :: rest) state =
      (state.putWord? layout value register).bind (layout.execute rest) := by
  -- Both the width and where the operand is decide how it is loaded, and both are read alike.
  unfold Processor.loads? at loads
  unfold load
  split
  · rename_i byte
    rw [if_pos byte] at loads
    obtain ⟨read, got, rfl⟩ := Option.map_eq_some_iff.mp loads
    simp [Processor.act?, got]
  · rename_i word
    rw [if_neg word] at loads
    simp [Processor.act?, loads]

/-- Storing the first register leaves its value in the frame. -/
theorem Brings.stores {code : Code} {value : BitVec 32} (brings : Brings layout code state value)
    (offset : Int) : Stores layout (code ++ [storeWord (.frame offset)]) state offset 4 value := by
  -- What lasts is the same, so the base of the frame is where it was.
  obtain ⟨after, executed, beside, rfl⟩ := brings
  refine ⟨after.stored offset 4 after.eax, ?_, beside.ebp, beside.esp, ?_⟩
  · rw [execute_append, executed]
    rfl
  · simp only [Processor.stored, beside.memory, beside.ebp]

/-- Storing the lowest byte of the first register leaves that of its value. -/
theorem Brings.storesByte {code : Code} {value : BitVec 32}
    (brings : Brings layout code state value) (offset : Int) :
    Stores layout (code ++ [operate .movb [Register.al, Operand.frame offset]]) state offset 1
      value := by
  -- Only the lowest byte is written, so it does not matter what the others are.
  obtain ⟨after, executed, beside, rfl⟩ := brings
  refine ⟨after.stored offset 1 ((after.eax.extractLsb' 0 8).setWidth 32), ?_, beside.ebp,
    beside.esp, ?_⟩
  · rw [execute_append, executed]
    rfl
  · rw [Processor.stored, beside.memory, beside.ebp]
    exact Memory.write_byte _ _ (lowest_setWidth _)

/-- Code that changes nothing that lasts may come before. -/
theorem Stores.after {first second : Code} {before between : Processor} {offset : Int}
    {size : Nat} {value : BitVec 32} (stores : Stores layout second between offset size value)
    (executed : layout.execute first before = some between) (beside : before.Beside between) :
    Stores layout (first ++ second) before offset size value := by
  -- The second stretch starts from the same base and the same memory.
  obtain ⟨after, finished, base, limit, memory⟩ := stores
  refine ⟨after, ?_, base.trans beside.ebp, limit.trans beside.esp, ?_⟩
  · rw [execute_append, executed]
    exact finished
  · rw [memory, beside.memory, beside.ebp]

/-- Two stretches of straight code that keep what lasts run one behind the other. -/
theorem Brings.after {first second : Code} {before between : Processor} {value : BitVec 32}
    (brings : Brings layout second between value)
    (executed : layout.execute first before = some between) (beside : before.Beside between) :
    Brings layout (first ++ second) before value := by
  obtain ⟨after, finished, late, eax⟩ := brings
  refine ⟨after, ?_, beside.trans late, eax⟩
  rw [execute_append, executed]
  exact finished

/-- A stored value may be worked on and stored again. -/
theorem Stores.andThen {first second : Code} {offset : Int} {old new : BitVec 32}
    (early : Stores layout first state offset 4 old)
    (late : ∀ between : Processor,
      between.memory.word (between.ebp + BitVec.ofInt 32 offset) = old →
        Stores layout second between offset 4 new) :
    Stores layout (first ++ second) state offset 4 new := by
  -- The second store is to the place of the first one, which is forgotten.
  obtain ⟨between, executed, base, limit, memory⟩ := early
  have there : between.memory.word (between.ebp + BitVec.ofInt 32 offset) = old := by
    rw [memory, base, Memory.word_write]
  obtain ⟨after, finished, sameBase, sameLimit, written⟩ := late between there
  refine ⟨after, ?_, sameBase.trans base, sameLimit.trans limit, ?_⟩
  · rw [execute_append, executed]
    exact finished
  · rw [written, memory, base, Memory.write_write]

theorem brings_load {operand : Operand} {width : Width} {value : BitVec 32}
    (holds : state.Shows layout operand width value) :
    Brings layout [load operand width .eax] state value :=
  ⟨{ state with eax := value }, execute_load (holds state rfl rfl) .eax [], ⟨rfl, rfl, rfl⟩, rfl⟩

/-- Noting a condition leaves its truth in the frame. -/
theorem stores_condition {flags : Flags} (compared : state.flags = some flags) {opcode : Opcode}
    {holds : Bool} (condition : opcode.condition? flags = some holds) (offset : Int) :
    Stores layout (storeCondition opcode (.frame offset)) state offset 4 (truth holds) := by
  have widened : ((state.eax.extractLsb' 8 24 ++ (if holds then 1#8 else 0#8)).extractLsb'
      0 8).setWidth 32 = truth holds := by
    rw [BitVec.extractLsb'_append_eq_right]
    cases holds <;> rfl
  have noted : state.act? layout ⟨opcode, [Register.al]⟩ =
      state.putByte? layout (if holds then 1 else 0) Register.al := by
    -- Only the operations that note a condition have one.
    cases opcode <;> cases condition <;>
      simp only [Processor.act?, compared, Option.bind_eq_bind, Option.bind_some,
        Opcode.condition?]
  refine ⟨{ state with eax := truth holds }.stored offset 4 (truth holds), ?_, rfl, rfl, rfl⟩
  simp only [storeCondition, execute_operate, noted]
  simp [Processor.act?, Processor.putByte?, Processor.getByte?, Processor.putWord?,
    Processor.getWord?, Processor.word?, Processor.address?, Processor.stored, widened]

/-- The sign of a difference tells which word is less, unless the difference is out of range. -/
theorem signed_less (left right : BitVec 32) :
    ((left - right).msb != left.ssubOverflow right) = left.slt right := by
  -- Both sides speak of the integers behind the words.
  have below := @BitVec.two_mul_toInt_lt 32 left
  have above := @BitVec.le_two_mul_toInt 32 left
  have under := @BitVec.two_mul_toInt_lt 32 right
  have atop := @BitVec.le_two_mul_toInt 32 right
  rw [BitVec.slt_eq_decide, BitVec.ssubOverflow, BitVec.msb_eq_toInt, BitVec.toInt_sub,
    Int.bmod_def, ← Bool.decide_or, bne, Bool.beq_eq_decide_eq, ← decide_not, decide_eq_decide,
    decide_eq_decide]
  -- The difference wraps exactly when it is out of range.
  split <;> omega

/-- The conditions of a comparison are those of its operands. -/
theorem condition_compare (relation : Comparison) {type : Ty} (word : type.isReal = false)
    (left right : BitVec 32) : (conditionOf relation type).condition? (.compare left right) =
      some (relation.holds type.isPointer left right) := by
  -- Signed words are compared as integers, and pointers as natural numbers.
  have less := signed_less left right
  have atLeast : ((left - right).msb == left.ssubOverflow right) = !left.slt right := by
    rw [← less, bne, Bool.not_not]
  cases pointer : type.isPointer with
  | false =>
    have same : (left == right) = decide (left.toInt = right.toInt) := by
      rw [Bool.eq_iff_iff]
      simp [BitVec.toInt_inj]
    cases relation <;> simp only [conditionOf, word, pointer, Bool.or_self, Bool.false_eq_true,
      if_false, Opcode.condition?, Flags.compare, Comparison.holds, Option.some.injEq, atLeast,
      bne] <;> simp only [BitVec.slt_eq_decide, BitVec.sle_eq_decide, same] <;>
      rw [Bool.eq_iff_iff] <;> simp <;> omega
  | true =>
    have same : (left == right) = decide (left.toNat = right.toNat) := by
      rw [Bool.eq_iff_iff]
      simp [BitVec.toNat_inj]
    cases relation <;> simp only [conditionOf, word, pointer, Bool.false_or, if_true,
      Opcode.condition?, Flags.compare, Comparison.holds, Option.some.injEq, bne] <;>
      simp only [BitVec.ult_eq_decide, BitVec.ule_eq_decide, same] <;> rw [Bool.eq_iff_iff] <;>
      simp <;> omega

end SmallC
