import SmallC.Proofs.Lowering.Nodes
import SmallC.Proofs.Words.Temporaries

/-! The processor together with its floating-point unit: how numbers are fetched, compared and told from
zero, and how their conditions get to where jumps and conditions on words are read. -/

namespace SmallC

namespace Expression

variable {σ : Type} {machine : Machine σ}

/-- Constants and names are there without any code. -/
theorem runs_leaf {expression : Expression} (leaf : expression.isLeaf = true) (progress : Progress)
    (state : σ) : expression.runs machine progress state .onward state := by
  cases expression with
  | integer | real | string | identifier =>
    rw [runs]
    exact ⟨rfl, rfl⟩
  | _ => cases leaf

/-- A node on one value runs its operand and then its own code. -/
theorem runs_unary {op : UnaryOp} (value : op ≠ .address) (operand : Expression) (type : Ty)
    (progress : Progress) : (Expression.unary op operand type).runs machine progress =
      (operand.runs machine progress).andThen
        (machine.visit ((Expression.unary op operand type).own progress)) := by
  rw [runs]
  intro _ _ same
  exact absurd same value

/-- A comparison runs both operands and then its own code. -/
theorem runs_compare (relation : Comparison) (left right : Expression) (type : Ty)
    (progress : Progress) :
    (Expression.binary (.compare relation) left right type).runs machine progress =
      (left.runs machine progress).andThen ((right.runs machine (left.after progress)).andThen
        (machine.visit ((Expression.binary (.compare relation) left right type).own progress))) := by
  rw [runs] <;> simp

end Expression

/-- How two floating-point numbers stand to each other. -/
inductive Standing where
  /-- The first one is less. -/
  | less
  /-- They are equal. -/
  | equal
  /-- The first one is greater. -/
  | greater
  /-- One of them is no number. -/
  | unordered
  deriving DecidableEq, Repr

namespace Standing

/-- The condition bits of the status word that a comparison sets: C0, C2 and C3. -/
def conditions : Standing → BitVec 16
  | .less => 0x0100
  | .equal => 0x4000
  | .greater => 0
  -- All three of them at once.
  | .unordered => 0x4500

/-- The status word after a comparison; C1 is cleared with the other conditions. -/
def status (standing : Standing) (old : BitVec 16) : BitVec 16 :=
  old &&& 0xb8ff ||| standing.conditions

/-- What a comparison leaves in C3. -/
def zero (standing : Standing) : Bool := standing = .equal || standing = .unordered

/-- What a comparison leaves in C0. -/
def carry (standing : Standing) : Bool := standing = .less || standing = .unordered

theorem status_zero (standing : Standing) (old : BitVec 16) :
    (standing.status old).getLsbD 14 = standing.zero := by
  -- C3 is among the bits that are cleared before they are set.
  cases standing <;> simp [status, conditions, zero]

theorem status_carry (standing : Standing) (old : BitVec 16) :
    (standing.status old).getLsbD 8 = standing.carry := by
  -- So is C0.
  cases standing <;> simp [status, conditions, carry]

end Standing

namespace Memory

variable (memory : Memory)

/-- The number at an address, its lowest byte first. -/
def number (address : BitVec 32) : BitVec 64 := memory.word (address + 4) ++ memory.word address

/-- The eight bytes of a number are written, the lowest one first. -/
def writeNumber (address : BitVec 32) (value : BitVec 64) : Memory :=
  (memory.write (address + 4) 4 (value.extractLsb' 32 32)).write address 4 (value.extractLsb' 0 32)

/-- A written number is read back. -/
theorem number_writeNumber (address : BitVec 32) (value : BitVec 64) :
    (memory.writeNumber address value).number address = value := by
  -- The lower word is written last, four bytes below the upper one.
  have below := @unchanged_write address (memory.write (address + 4) 4 (value.extractLsb' 32 32)) 0 4
    (value.extractLsb' 0 32)
  have clear : Clear address 0 4 (address + BitVec.ofInt 32 4) .long :=
    @clear_slot address 0 4 8 (by decide) 4 .long (by decide) (by decide)
  rw [show address + BitVec.ofInt 32 0 = address from BitVec.add_zero address] at below
  have upper : (memory.writeNumber address value).word (address + 4) = value.extractLsb' 32 32 :=
    (below.read clear).trans (Memory.word_write _ _ _)
  have lower : (memory.writeNumber address value).word address = value.extractLsb' 0 32 :=
    Memory.word_write _ _ _
  have join : value.extractLsb' (0 + 32) 32 ++ value.extractLsb' 0 32 =
      value.extractLsb' 0 (32 + 32) := BitVec.extractLsb'_append_extractLsb'_eq_extractLsb' rfl
  rw [number, upper, lower]
  exact join.trans BitVec.extractLsb'_eq_self

end Memory

/-- The processor and its floating-point unit. -/
structure Board where
  /-- The processor with the memory. -/
  processor : Processor
  /-- The floating-point stack, its top first. -/
  numbers : List (BitVec 64)
  /-- The status word of the floating-point unit. -/
  status : BitVec 16
  /-- The condition of parity, which no jump or condition of emitted code reads. -/
  parity : Bool

/-- What numbers are to the floating-point unit, and what all other instructions do. -/
structure Numerics where
  /-- How two numbers stand to each other. -/
  order : BitVec 64 → BitVec 64 → Standing
  /-- The number that an integer is. -/
  whole : Int → BitVec 64
  /-- Calls, arithmetic on numbers, and what moves the frame. -/
  others : Instruction → Board → Option Board

namespace Board

variable (numerics : Numerics) (layout : Layout) (board : Board)

/-- The number that an operand is. -/
def number? (operand : Operand) : Option (BitVec 64) :=
  (board.processor.address? layout operand).map board.processor.memory.number

/-- The state after a number has been put on the stack. -/
def push (number : BitVec 64) : Board := { board with numbers := number :: board.numbers }

/-- The state after a number has been stored. -/
def storing (address : BitVec 32) (number : BitVec 64) : Board :=
  let memory := board.processor.memory.writeNumber address number
  { board with processor.memory := memory }

/-- The state after two numbers have been compared. -/
def noting (standing : Standing) : Board :=
  { board with status := standing.status board.status }

/-- The state after the status word has been copied to the lower half of the first register. -/
def copying : Board :=
  { board with processor.eax := board.processor.eax.extractLsb' 16 16 ++ board.status }

/-- The state after the conditions have been taken from the second byte of the first register. -/
def taking : Board :=
  let conditions := board.processor.eax.extractLsb' 8 8
  { board with
    parity := conditions.getLsbD 2
    processor.flags := some {
      zero := conditions.getLsbD 6
      carry := conditions.getLsbD 0
      sign := conditions.getLsbD 7
      -- Overflow is the one condition that stays as it is.
      overflow := (board.processor.flags.map Flags.overflow).getD false } }

/-- The state after an instruction, unless it cannot be run. -/
def act? (instruction : Instruction) : Option Board :=
  match instruction.opcode, instruction.arguments with
  | .fldl, [.operand place] => (board.number? layout place).map board.push
  | .fildl, [.operand place] => (board.processor.address? layout place).map fun address =>
    board.push (numerics.whole (board.processor.memory.word address).toInt)
  | .fstpl, [.operand place] => do
    let address ← board.processor.address? layout place
    let top ← board.numbers.head?
    return { board with numbers := board.numbers.tail }.storing address top
  | .fcompl, [.operand place] => do
    let right ← board.number? layout place
    let left ← board.numbers.head?
    return { board with numbers := board.numbers.tail }.noting (numerics.order left right)
  | .ftst, [] => board.numbers.head?.map fun top => board.noting (numerics.order top 0)
  | .fstp, [.register .st0] =>
    board.numbers.head?.map fun _ => { board with numbers := board.numbers.tail }
  | .fnstsw, [.register .ax] => some board.copying
  | .sahf, [] => some board.taking
  | .fld1, _ | .fstl, _ | .fisttpl, _ | .fchs, _ | .faddl, _ | .faddp, _ | .fsubl, _ | .fmull, _
  | .fdivl, _ | .call, _ | .pushl, _ | .popl, _ | .ret, _ => numerics.others instruction board
  -- Everything else is an instruction on words, or none at all.
  | _, _ => (board.processor.act? layout instruction).map fun processor => { board with processor }

end Board

/-- The machine whose names and constants are laid out in the given way. -/
def Numerics.machine (numerics : Numerics) (layout : Layout) : Machine Board where
  act instruction board := board.act? numerics layout instruction
  nonzero board := board.processor.flags.map fun flags => (!flags.zero, board)

namespace Board

variable {numerics : Numerics} {layout : Layout} {board : Board}

/-- An instruction on words does to the processor what it does without a floating-point unit. -/
theorem act?_of_words {instruction : Instruction} {after : Processor}
    (acts : board.processor.act? layout instruction = some after) :
    (numerics.machine layout).act instruction board = some { board with processor := after } := by
  -- What the processor can run is none of the instructions on numbers.
  obtain ⟨opcode, arguments⟩ := instruction
  show board.act? numerics layout ⟨opcode, arguments⟩ = _
  cases opcode
  case movb | movl | movsbl | movzbl | leal | addb | addl | subb | subl | imull | idivl | cltd | negl |
      cmpl | sete | setne | setl | setg | setle | setge | setb | seta | setbe | setae | jmp | je | jne =>
    simp only [act?, acts, Option.map_some]
  -- The processor alone cannot run any of the others.
  all_goals
    obtain _ | ⟨first, _ | ⟨second, rest⟩⟩ := arguments
    all_goals simp [Processor.act?, Opcode.condition?] at acts

/-- A number that has been stored in the frame is there. -/
theorem number?_storing (board : Board) (offset : Int) (number : BitVec 64) :
    (board.storing (board.processor.ebp + BitVec.ofInt 32 offset) number).number? layout
      (.frame offset) = some number :=
  congrArg some (board.processor.memory.number_writeNumber _ number)

variable (numerics) in
/-- Code on words that the processor runs to its end is visited so with a floating-point unit. -/
theorem visit_of_words {code : Code} {after : Processor}
    (executed : layout.execute code board.processor = some after) :
    (numerics.machine layout).visit code board .onward { board with processor := after } := by
  -- Along the code, every instruction is one on words.
  induction code generalizing board with
  | nil =>
    cases executed
    exact ⟨rfl, rfl⟩
  | cons item rest ih =>
    cases item with
    | code instruction =>
      simp only [Layout.execute, Option.bind_eq_some_iff] at executed
      obtain ⟨between, acted, executed⟩ := executed
      simp only [Machine.visit, act?_of_words acted]
      exact ih executed
    | _ => exact ih executed

/-- Straight code may be visited in two pieces. -/
theorem visit_append {first second : Code} {before between after : Board} {how : Ending}
    (early : (numerics.machine layout).visit first before .onward between)
    (late : (numerics.machine layout).visit second between how after) :
    (numerics.machine layout).visit (first ++ second) before how after := by
  -- Along the first piece, with the second one kept behind it.
  induction first generalizing before with
  | nil =>
    obtain ⟨-, rfl⟩ := early
    exact late
  | cons item rest ih =>
    cases item with
    | code instruction =>
      simp only [List.cons_append, Machine.visit] at early ⊢
      cases acted : (numerics.machine layout).act instruction before with
      | some next =>
        rw [acted] at early
        exact ih early
      | none =>
        rw [acted] at early
        exact absurd early.1 (by simp)
    | _ => exact ih early

/-- The conditions of a comparison are found where conditions on words are. -/
structure Notes (standing : Standing) (before after : Board) : Prop where
  /-- What lasts of the processor is the same. -/
  beside : before.processor.Beside after.processor
  /-- So is the floating-point stack. -/
  numbers : after.numbers = before.numbers
  /-- The conditions can be read. -/
  flags : ∃ flags, after.processor.flags = some flags ∧ flags.zero = standing.zero ∧
    flags.carry = standing.carry

/-- The status word goes through the first register to the conditions. -/
theorem flags_taking {standing : Standing} {old : BitVec 16} {word : BitVec 32}
    (copied : board.processor.eax = word.extractLsb' 16 16 ++ standing.status old) :
    ∃ flags, board.taking.processor.flags = some flags ∧ flags.zero = standing.zero ∧
      flags.carry = standing.carry := by
  have bit (index : Nat) (low : index < 16) :
      board.processor.eax.getLsbD index = (standing.status old).getLsbD index := by
    rw [copied, BitVec.getLsbD_append]
    simp [low]
  -- C3 and C0 are in the second byte of the status word, which is what is taken.
  refine ⟨_, rfl, ?_, ?_⟩
  · rw [← standing.status_zero old, ← bit 14 (by decide)]
    exact BitVec.getLsbD_extractLsb' ..
  · rw [← standing.status_carry old, ← bit 8 (by decide)]
    exact BitVec.getLsbD_extractLsb' ..

variable (numerics) in
/-- A number is compared with zero. -/
theorem visit_compareZero {value : Operand} {type : Ty} {number : BitVec 64}
    (real : type.isReal = true) (there : board.number? layout value = some number) :
    ∃ after, (numerics.machine layout).visit (compareZero value type) board .onward after ∧
      Notes (numerics.order number 0) board after := by
  -- The number is on top of the stack until its status has been copied.
  let compared := ((board.push number).noting (numerics.order number 0)).copying
  refine ⟨{ compared with numbers := board.numbers }.taking, ?_, ⟨rfl, rfl, rfl⟩, rfl,
    flags_taking rfl⟩
  rw [compareZero, if_pos real]
  simp only [Machine.visit, Numerics.machine, operate, act?, there, Option.map_some, push, noting,
    List.head?_cons, copying, List.tail_cons]
  exact ⟨rfl, rfl⟩

variable (numerics) in
/-- Two numbers are compared. -/
theorem visit_compare {left right : Operand} {first second : BitVec 64}
    (here : board.number? layout left = some first)
    (there : board.number? layout right = some second) :
    ∃ after, (numerics.machine layout).visit [operate .fldl [left], operate .fcompl [right],
        operate .fnstsw [Register.ax], operate .sahf []] board .onward after ∧
      Notes (numerics.order first second) board after := by
  refine ⟨(board.noting (numerics.order first second)).copying.taking, ?_, ⟨rfl, rfl, rfl⟩, rfl,
    flags_taking rfl⟩
  have still : (board.push first).number? layout right = some second := there
  simp only [Machine.visit, Numerics.machine, operate, act?, here, Option.map_some, still]
  exact ⟨rfl, rfl⟩

end Board

end SmallC
