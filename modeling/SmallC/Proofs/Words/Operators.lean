import SmallC.Proofs.Typing.Rules
import SmallC.Proofs.Words.Straight

/-! The code of operators on words leaves their results in the frame. -/

namespace SmallC

variable {layout : Layout} {state : Processor}

attribute [local simp] Processor.act? Processor.getWord? Processor.getByte? Processor.putWord?
  Processor.putByte? Processor.word? Processor.address? Processor.change?

theorem execute_compareZero {operand : Operand} {type : Ty} {value : BitVec 32}
    (word : type.isReal = false) (holds : state.Shows layout operand (Width.of type) value) :
    ∃ after, layout.execute (compareZero operand type) state = some after ∧ state.Beside after ∧
      after.flags = some (.compare value 0) := by
  refine ⟨{ state with eax := value, flags := some (.compare value 0) }, ?_, ⟨rfl, rfl, rfl⟩, rfl⟩
  unfold compareZero
  rw [word, if_neg Bool.false_ne_true, execute_load (holds state rfl rfl)]
  rfl

/-- A negation leaves whether its operand is zero. -/
theorem stores_not {operand : Operand} {type : Ty} {value : BitVec 32}
    (word : type.isReal = false) (holds : state.Shows layout operand (Width.of type) value)
    (offset : Int) :
    Stores layout (compareZero operand type ++ storeCondition .sete (.frame offset)) state offset 4
      (truth (value == 0)) := by
  -- The condition of equality is what the value compared with zero notes.
  obtain ⟨between, compared, beside, flags⟩ := execute_compareZero word holds
  exact (stores_condition flags rfl offset).after compared beside

/-- An opposite is left for a negation. -/
theorem stores_negation {operand : Operand} {type operandType : Ty} {value : BitVec 32}
    (word : type.isReal = false)
    (holds : state.Shows layout operand (Width.of operandType) value) (offset : Int) :
    Stores layout (Expression.negation type operandType operand (.frame offset)) state offset 4 (- value) := by
  -- The opposite is formed in the first register.
  have brings : Brings layout [load operand (Width.of operandType) .eax,
      operate .negl [Register.eax]] state (- value) := by
    refine ⟨{ state with eax := - value, flags := none }, ?_, ⟨rfl, rfl, rfl⟩, rfl⟩
    rw [execute_load (holds state rfl rfl)]
    rfl
  unfold Expression.negation
  rw [word, if_neg Bool.false_ne_true]
  exact brings.stores offset

theorem scaled_few (value : BitVec 32) {scale : Nat} (few : ¬ 1 < scale) :
    scaled value scale = value := by
  -- There is no scale, or it is one.
  obtain rfl | rfl : scale = 0 ∨ scale = 1 := by omega
  · rfl
  · simp [scaled]

/-- An operand is loaded and scaled. -/
theorem execute_loadScaled {operand : Operand} {width : Width} {value : BitVec 32}
    (loads : state.loads? layout operand width = some value) {register : Register}
    (general : register = .eax ∨ register = .ecx) (scale : Nat) (rest : Code) :
    ∃ flags, layout.execute (load operand width register :: (scaleBy scale register ++ rest)) state =
      ({ state with flags := flags }.putWord? layout (scaled value scale) register).bind
        (layout.execute rest) := by
  -- Scaling is left out where it would change nothing.
  unfold scaleBy
  split
  · rename_i many
    -- Multiplying loses the conditions.
    refine ⟨none, ?_⟩
    have product : value * BitVec.ofNat 32 scale = scaled value scale := by
      rw [scaled, if_neg (by omega)]
    rw [execute_load loads]
    rcases general with rfl | rfl <;> simp [immediate, product]
  · rename_i few
    refine ⟨state.flags, ?_⟩
    rw [List.nil_append, execute_load loads, scaled_few value few]

/-- Both operands are loaded and scaled. -/
theorem execute_loadBoth {left right : Operand} {leftType rightType : Ty} {first second : BitVec 32}
    (one : state.Shows layout left (Width.of leftType) first)
    (other : state.Shows layout right (Width.of rightType) second) (scaleLeft scaleRight : Nat) :
    ∃ after, layout.execute (loadBoth left right leftType rightType scaleLeft scaleRight) state =
        some after ∧ state.Beside after ∧ after.eax = scaled first scaleLeft ∧
      after.ecx = scaled second scaleRight := by
  -- Loading the second operand leaves the first register alone.
  obtain ⟨flags, begun⟩ := execute_loadScaled (one state rfl rfl) (.inl rfl) scaleLeft
    (load right (.of rightType) .ecx :: scaleBy scaleRight .ecx)
  let between : Processor := { state with eax := scaled first scaleLeft, flags := flags }
  obtain ⟨last, ended⟩ := execute_loadScaled (other between rfl rfl) (.inr rfl) scaleRight []
  rw [List.append_nil] at ended
  refine ⟨{ between with ecx := scaled second scaleRight, flags := last }, ?_, ⟨rfl, rfl, rfl⟩, rfl,
    rfl⟩
  unfold loadBoth
  rw [begun]
  exact ended

/-- Dividing words leaves the quotient and the remainder. -/
theorem execute_divideWords (nonzero : state.ecx ≠ 0)
    (fits : ¬ (state.eax = BitVec.intMin 32 ∧ state.ecx = -1)) : ∃ after,
      layout.execute divideWords state = some after ∧ state.Beside after ∧
        after.eax = state.eax.sdiv state.ecx ∧ after.edx = state.eax.srem state.ecx := by
  -- The double word is the dividend widened with its sign.
  have widened : ((if state.eax.msb then BitVec.allOnes 32 else 0) ++ state.eax : BitVec 64) =
      state.eax.signExtend 64 := by
    rw [BitVec.signExtend_eq_append_of_le (by decide)]
    rfl
  have dividend : (state.eax.signExtend 64).toInt = state.eax.toInt :=
    BitVec.toInt_signExtend_of_le (by decide)
  have quotient : state.eax.toInt.tdiv state.ecx.toInt = (state.eax.sdiv state.ecx).toInt := by
    refine (BitVec.toInt_sdiv_of_ne_or_ne _ _ ?_).symm
    by_cases least : state.eax = BitVec.intMin 32
    · exact .inr fun minus => fits ⟨least, minus⟩
    · exact .inl least
  have remainder : state.eax.toInt.tmod state.ecx.toInt = (state.eax.srem state.ecx).toInt :=
    (BitVec.toInt_srem _ _).symm
  have runs : ¬ (state.ecx = 0 ∨ (state.eax.sdiv state.ecx).toInt < -2 ^ 31 ∨
      2 ^ 31 ≤ (state.eax.sdiv state.ecx).toInt) := by
    have below := @BitVec.two_mul_toInt_lt 32 (state.eax.sdiv state.ecx)
    have above := @BitVec.le_two_mul_toInt 32 (state.eax.sdiv state.ecx)
    rintro (zero | low | high)
    · exact nonzero zero
    · omega
    · omega
  let after : Processor := { state with
    eax := state.eax.sdiv state.ecx
    edx := state.eax.srem state.ecx
    flags := none }
  refine ⟨after, ?_, ⟨rfl, rfl, rfl⟩, rfl, rfl⟩
  simp only [divideWords, execute_operate, Processor.act?, Processor.getWord?, Processor.word?,
    Option.bind_some, Option.bind_eq_bind, Processor.divide?, widened, dividend, quotient,
    remainder, if_neg runs, BitVec.ofInt_toInt, execute_nil, after]

/-- Arithmetic leaves what its operation brings from the loaded operands. -/
theorem stores_arithmetic {real : Opcode} {words : Code} {type leftType rightType : Ty}
    {left right : Operand} {first second value : BitVec 32} {scaleLeft scaleRight : Nat}
    (word : type.isReal = false) (one : state.Shows layout left (Width.of leftType) first)
    (other : state.Shows layout right (Width.of rightType) second)
    (works : ∀ between : Processor, between.eax = scaled first scaleLeft →
      between.ecx = scaled second scaleRight → Brings layout words between value)
    (offset : Int) :
    Stores layout (arithmetic real words type left right (.frame offset) leftType rightType
      scaleLeft scaleRight) state offset 4 value := by
  -- Words work on what has been loaded, and the first register is stored.
  obtain ⟨between, loaded, beside, eax, ecx⟩ := execute_loadBoth one other scaleLeft scaleRight
  unfold arithmetic
  rw [word, if_neg Bool.false_ne_true]
  exact ((works between eax ecx).after loaded beside).stores offset

/-- Dividing brings the quotient. -/
theorem brings_divideWords {first second : BitVec 32} (eax : state.eax = first)
    (ecx : state.ecx = second) (defined : BinaryOp.divide.Defined first second) :
    Brings layout divideWords state (first.sdiv second) := by
  subst eax ecx
  obtain ⟨after, divided, beside, quotient, -⟩ := @execute_divideWords layout _ defined.1 defined.2
  exact ⟨after, divided, beside, quotient⟩

/-- A difference of pointers is divided by the size of an element. -/
theorem stores_countElements {code : Code} {offset : Int} {bytes : BitVec 32} {scale : Nat}
    (small : scale < 2 ^ 31) (stores : Stores layout code state offset 4 bytes) :
    Stores layout (code ++ countElements scale (.frame offset)) state offset 4
      (counted bytes scale) := by
  -- The difference is read back from where it has been stored.
  unfold countElements
  split
  · rename_i many
    -- The size of an element is neither zero nor negative as a word.
    have nonzero : BitVec.ofNat 32 scale ≠ 0 := by
      intro zero
      have number := congrArg BitVec.toNat zero
      rw [BitVec.toNat_ofNat] at number
      have none : (0 : BitVec 32).toNat = 0 := rfl
      omega
    have positive : BitVec.ofNat 32 scale ≠ -1 := by
      intro minus
      have number := congrArg BitVec.toNat minus
      rw [BitVec.toNat_ofNat] at number
      have most : (-1 : BitVec 32).toNat = 2 ^ 32 - 1 := rfl
      omega
    refine stores.andThen ?_
    intro between there
    let loaded : Processor := { between with eax := bytes, ecx := BitVec.ofNat 32 scale }
    have divides : Brings layout divideWords loaded (counted bytes scale) := by
      rw [counted, if_neg (by omega)]
      exact brings_divideWords rfl rfl ⟨nonzero, fun least => positive least.2⟩
    have begins : layout.execute [operate .movl [Operand.frame offset, Register.eax],
        operate .movl [immediate scale, Register.ecx]] between = some loaded := by
      simp [there, immediate, loaded]
    exact (divides.after begins ⟨rfl, rfl, rfl⟩).stores offset
  · rename_i few
    have same : counted bytes scale = bytes := by
      obtain rfl | rfl : scale = 0 ∨ scale = 1 := by omega
      · rfl
      · exact BitVec.sdiv_one
    rw [same, List.append_nil]
    exact stores

/-- A comparison leaves whether it holds. -/
theorem stores_compare (relation : Comparison) {leftType rightType : Ty} {left right : Operand}
    {first second : BitVec 32} (word : leftType.isReal = false)
    (one : state.Shows layout left (Width.of leftType) first)
    (other : state.Shows layout right (Width.of rightType) second) (offset : Int) :
    Stores layout (compareValues relation leftType rightType left right (.frame offset)) state
      offset 4 (truth (relation.holds leftType.isPointer first second)) := by
  -- Both operands are compared in registers, and the condition is noted.
  let compared : Processor := { state with
    eax := first
    ecx := second
    flags := some (.compare first second) }
  have begins : layout.execute [load left (.of leftType) .eax, load right (.of rightType) .ecx,
      operate .cmpl [Register.ecx, Register.eax]] state = some compared := by
    rw [execute_load (one state rfl rfl)]
    show layout.execute _ { state with eax := first } = _
    rw [execute_load (other { state with eax := first } rfl rfl)]
    rfl
  have noted : compared.flags = some (.compare first second) := rfl
  unfold compareValues
  rw [word, if_neg Bool.false_ne_true]
  exact (stores_condition noted (condition_compare relation word first second) offset).after begins
    ⟨rfl, rfl, rfl⟩

/-- An operation on the first two registers brings what it makes of them. -/
theorem brings_onWords {opcode : Opcode} {first second : BitVec 32}
    (operation : BitVec 32 → BitVec 32 → BitVec 32)
    (acts : ∀ state : Processor, state.act? layout ⟨opcode, [Register.ecx, Register.eax]⟩ =
      some { state with eax := operation state.eax state.ecx, flags := none })
    (eax : state.eax = first) (ecx : state.ecx = second) :
    Brings layout (onWords opcode) state (operation first second) := by
  subst eax ecx
  refine ⟨{ state with eax := operation state.eax state.ecx, flags := none }, ?_, ⟨rfl, rfl, rfl⟩,
    rfl⟩
  rw [onWords, execute_operate, acts]
  rfl

/-- A remainder leaves what is left of the division. -/
theorem stores_remainder {leftType rightType : Ty} {left right : Operand}
    {first second : BitVec 32} (one : state.Shows layout left (Width.of leftType) first)
    (other : state.Shows layout right (Width.of rightType) second)
    (defined : BinaryOp.remainder.Defined first second) (offset : Int) :
    Stores layout (loadBoth left right leftType rightType 0 0 ++ divideWords
      ++ [operate .movl [Register.edx, Operand.frame offset]]) state offset 4
      (first.srem second) := by
  -- The division is that of a quotient, but the third register is stored.
  obtain ⟨loaded, begun, early, eax, ecx⟩ := execute_loadBoth one other 0 0
  -- Without a scale the operands are loaded as they are.
  have eax : loaded.eax = first := eax
  have ecx : loaded.ecx = second := ecx
  obtain ⟨divided, ended, late, -, edx⟩ := @execute_divideWords layout loaded
    (by rw [ecx]; exact defined.1) (by rw [eax, ecx]; exact defined.2)
  have executed : layout.execute (loadBoth left right leftType rightType 0 0 ++ divideWords)
      state = some divided := by
    rw [execute_append, begun, Option.bind_some, ended]
  have remains : divided.edx = first.srem second := by
    rw [edx, eax, ecx]
  have stores : Stores layout [operate .movl [Register.edx, Operand.frame offset]] divided offset 4
      (first.srem second) := by
    rw [← remains]
    exact ⟨divided.stored offset 4 divided.edx, rfl, rfl, rfl, rfl⟩
  exact stores.after executed (early.trans late)

/-- The sizes that scale are far below a wrap. -/
theorem BinaryOp.Types.scale_lt {scaleRight scaleResult : Nat} {left right type : Ty}
    (types : (BinaryOp.subtract scaleRight scaleResult).Types left right type) :
    scaleResult < 2 ^ 31 := by
  -- Elements of scalars take at most eight bytes.
  cases types with
  | difference specifier indirection =>
    cases indirection <;> cases specifier <;> simp [Ty.size, Ty.elementSize, Specifier.size]
  | _ => decide

/-- A strict operator leaves its result, if it has one. -/
theorem stores_operateOn {op : BinaryOp} {type leftType rightType : Ty} {left right : Operand}
    {first second : BitVec 32} (types : op.Types leftType rightType type)
    (conjunction : op ≠ .logicalAnd) (disjunction : op ≠ .logicalOr) (word : type.isReal = false)
    (leftWord : leftType.isReal = false)
    (one : state.Shows layout left (Width.of leftType) first)
    (other : state.Shows layout right (Width.of rightType) second)
    (defined : op.Defined first second) (offset : Int) :
    Stores layout (operateOn op type leftType rightType left right (.frame offset)) state offset 4
      (op.result leftType first second) := by
  -- Each operator is what its own code brings or stores.
  cases op with
  | multiply =>
    refine stores_arithmetic word one other ?_ offset
    intro between eax ecx
    exact brings_onWords (· * ·) (fun _ => rfl) eax ecx
  | divide =>
    refine stores_arithmetic word one other ?_ offset
    intro between eax ecx
    exact brings_divideWords eax ecx defined
  | remainder => exact stores_remainder one other defined offset
  | add scaleLeft scaleRight =>
    refine stores_arithmetic word one other ?_ offset
    intro between eax ecx
    exact brings_onWords (· + ·) (fun _ => rfl) eax ecx
  | subtract scaleRight scaleResult =>
    refine stores_countElements types.scale_lt (stores_arithmetic word one other ?_ offset)
    intro between eax ecx
    exact brings_onWords (· - ·) (fun _ => rfl) eax ecx
  | compare relation => exact stores_compare relation leftWord one other offset
  | logicalAnd => exact absurd rfl conjunction
  | logicalOr => exact absurd rfl disjunction

/-- What a pointer points to is left in as many bytes as it takes. -/
theorem stores_dereference {pointer : Operand} {type : Ty} {address : BitVec 32}
    (word : Width.of type ≠ .double) (holds : state.Shows layout pointer .long address)
    (offset : Int) :
    Stores layout (operate .movl [pointer, Register.eax] :: copyPointed type (.frame offset)) state
      offset (Width.of type).size (state.memory.read address (Width.of type)) := by
  -- The width of the type says through which register the value goes.
  have begins (rest : Code) : layout.execute (operate .movl [pointer, Register.eax] :: rest) state =
      layout.execute rest { state with eax := address } :=
    execute_load (holds state rfl rfl) .eax rest
  unfold copyPointed
  cases width : Width.of type with
  | double => exact absurd width word
  | long =>
    have brings : Brings layout [operate .movl [pointer, Register.eax],
        operate .movl [Operand.indirect .eax, Register.eax]] state (state.memory.word address) := by
      refine ⟨{ state with eax := state.memory.word address }, ?_, ⟨rfl, rfl, rfl⟩, rfl⟩
      rw [begins]
      rfl
    exact brings.stores offset
  | byte =>
    -- A byte goes through the second register, the rest of which stays.
    let after : Processor := { state with
      eax := address
      ecx := state.ecx.extractLsb' 8 24 ++ state.memory address }
    have lowest : after.ecx.extractLsb' 0 8 = state.memory address :=
      BitVec.extractLsb'_append_eq_right
    refine ⟨after.stored offset 1 ((state.memory address).setWidth 32), ?_, rfl, rfl, ?_⟩
    · rw [begins]
      show after.putByte? layout (after.ecx.extractLsb' 0 8) (Operand.frame offset) = _
      rw [lowest]
      rfl
    · refine Memory.write_byte _ _ ?_
      rw [Memory.read, lowest_signExtend, lowest_setWidth]

/-- The address of storage is brought. -/
theorem brings_loadAddress {value : Operand} {address : BitVec 32}
    (there : state.address? layout value = some address) :
    Brings layout [loadAddress (.direct value)] state address := by
  -- What has an address is in memory, so the address is taken and not the value.
  have placed : value.isImmediate = false := by
    cases value <;> first | rfl | contradiction
  refine ⟨{ state with eax := address }, ?_, ⟨rfl, rfl, rfl⟩, rfl⟩
  unfold loadAddress
  dsimp only
  rw [placed, if_neg Bool.false_ne_true]
  simp only [execute_operate, Processor.act?, there, Option.bind_eq_bind, Option.bind_some]
  rfl

/-- A conversion between words and characters leaves the value. -/
theorem stores_convertValue {source target : Ty} {operand : Operand} {value : BitVec 32}
    (word : Width.of source ≠ .double) (result : Width.of target ≠ .double)
    (holds : state.Shows layout operand (Width.of source) value) (offset : Int)
    (progress : Progress) :
    Stores layout (convertValue source target operand (.frame offset) progress).1 state offset
      (Width.of target).size value := by
  have loads := brings_load holds
  unfold convertValue
  -- Only the widths decide how a value is converted.
  generalize Width.of source = narrow at word loads
  generalize Width.of target = wide at result
  cases wide with
  | double => contradiction
  | long =>
    cases narrow with
    | double => contradiction
    | byte | long => exact loads.stores offset
  | byte =>
    cases narrow with
    | double => contradiction
    | byte | long => exact loads.storesByte offset

end SmallC
