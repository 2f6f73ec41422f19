import SmallC.Proofs.Execution.Machine
import SmallC.Proofs.Lowering.Nodes

/-! The floating-point stack: how many values emitted code takes from it and leaves on it. -/

namespace SmallC

/-- How many values an operation takes from the floating-point stack, and how many it puts there. -/
def Opcode.floats : Opcode → Nat × Nat
  | .fldl | .fld1 | .fildl => (0, 1)
  | .fstpl | .fstp | .fisttpl | .fcompl => (1, 0)
  | .faddp => (2, 1)
  -- The others that name the top work on it in place.
  | .fstl | .fchs | .faddl | .fsubl | .fmull | .fdivl | .ftst => (1, 1)
  | _ => (0, 0)

/-- How many values a value of the type makes on the floating-point stack. -/
def Ty.floats (type : Ty) : Nat := if type.isReal then 1 else 0

/-- How many values a function of the type returns on the floating-point stack. -/
def Ty.leaves : Ty → Nat
  | .function specifier indirection _ _ => (Ty.scalar specifier indirection).floats
  | _ => 0

theorem Ty.leaves_le (type : Ty) : type.leaves ≤ 1 := by
  unfold leaves floats
  split
  · split <;> omega
  · omega

namespace Instruction

/-- How many values a call leaves on the floating-point stack, by the name of the function. -/
def returns (leaves : String → Nat) : Instruction → Nat
  | ⟨.call, [.callee name]⟩ => leaves name
  | _ => 0

/-- The values on the floating-point stack after an instruction, if there are enough before it. -/
def float (leaves : String → Nat) (instruction : Instruction) (held : Nat) : Option Nat :=
  let floats := instruction.opcode.floats
  if floats.1 ≤ held then some (held - floats.1 + floats.2 + instruction.returns leaves) else none

end Instruction

/-- How many values are on the floating-point stack, and how the tests to come end. -/
structure Floats where
  /-- The values on the stack. -/
  held : Nat
  /-- The outcomes of the tests to come. -/
  outcomes : List Bool

/-- A machine that counts the values on the floating-point stack, whatever its tests come to. -/
def floating (leaves : String → Nat) : Machine Floats where
  act instruction state :=
    (instruction.float leaves state.held).map fun held => { state with held }
  nonzero state :=
    match state.outcomes with
    | [] => none
    | outcome :: rest => some (outcome, { state with outcomes := rest })

/-- What the code of a function relies on, and what it brings to its own end. -/
structure Convention where
  /-- How many values calls leave, by the name of the function. -/
  leaves : String → Nat
  /-- The end of the function. -/
  exit : Label
  /-- How many values a return brings to the end of the function. -/
  returned : Nat

namespace Convention

/-- The values behind an instruction: at jumps there are none but those that are returned, and
elsewhere at most two. -/
def pass (convention : Convention) : Instruction → Nat → Option Nat
  | ⟨.jmp, [.target label]⟩, held =>
    if held = (if label = convention.exit then convention.returned else 0) then some 0 else none
  | ⟨.je, [.target label]⟩, held | ⟨.jne, [.target label]⟩, held =>
    if label ≠ convention.exit ∧ held = 0 then some 0 else none
  | instruction, held =>
    if instruction.opcode.jumps then none
    else (instruction.float convention.leaves held).filter (· ≤ 2)

/-- What it means for an instruction to be passed, before and behind which so many values are held. -/
inductive Passes (convention : Convention) : Instruction → (before after : Nat) → Prop where
  /-- A jump brings what is returned to the end of the function, and nothing elsewhere. -/
  | jump (label : Label) : Passes convention ⟨.jmp, [.target label]⟩
    (if label = convention.exit then convention.returned else 0) 0
  /-- A conditional jump goes elsewhere and brings nothing. -/
  | branch {opcode : Opcode} {label : Label} (conditional : opcode = .je ∨ opcode = .jne)
    (other : label ≠ convention.exit) : Passes convention ⟨opcode, [.target label]⟩ 0 0
  /-- Any other instruction finds the values it takes and leaves at most two. -/
  | act {instruction : Instruction} {before after : Nat}
    (straight : instruction.opcode.jumps = false)
    (floats : instruction.float convention.leaves before = some after) (few : after ≤ 2) :
    Passes convention instruction before after

theorem passes_of_pass {convention : Convention} {instruction : Instruction} {held next : Nat}
    (passed : convention.pass instruction held = some next) :
    convention.Passes instruction held next := by
  unfold pass at passed
  -- The cases are the jump, the two branches, and whatever acts.
  split at passed
  · obtain ⟨rfl, zero⟩ := Option.ite_none_right_eq_some.mp passed
    cases zero
    exact .jump _
  · obtain ⟨⟨other, rfl⟩, zero⟩ := Option.ite_none_right_eq_some.mp passed
    cases zero
    exact .branch (.inl rfl) other
  · obtain ⟨⟨other, rfl⟩, zero⟩ := Option.ite_none_right_eq_some.mp passed
    cases zero
    exact .branch (.inr rfl) other
  · obtain ⟨straight, passed⟩ := Option.ite_none_left_eq_some.mp passed
    obtain ⟨floats, few⟩ := Option.filter_eq_some_iff.mp passed
    exact .act (Bool.eq_false_iff.mpr straight) floats (of_decide_eq_true few)

/-- The values behind an item of a body. -/
def count (convention : Convention) : Item → Nat → Option Nat
  | .code instruction, held => convention.pass instruction held
  -- Labels are reached from several places, so there must be a single count for all.
  | .mark _, held => if held = 0 then some 0 else none
  | _, _ => none

/-- The values behind code. -/
def counts (convention : Convention) : Code → Nat → Option Nat
  | [], held => some held
  | item :: rest, held => (convention.count item held).bind (convention.counts rest)

/-- Code that starts with no values on the stack and ends with none. -/
def Balanced (convention : Convention) (code : Code) : Prop := convention.counts code 0 = some 0

variable (convention : Convention)

/-- The values behind two pieces of code. -/
theorem counts_append (first second : Code) (held : Nat) :
    convention.counts (first ++ second) held =
      (convention.counts first held).bind (convention.counts second) := by
  induction first generalizing held with
  | nil => rfl
  | cons item rest ih =>
    rw [List.cons_append, counts, counts]
    cases convention.count item held with
    | none => rfl
    | some between => exact ih between

variable {convention}

theorem balanced_nil : convention.Balanced [] := rfl

/-- Balanced pieces of code follow each other. -/
theorem Balanced.append {first second : Code} (early : convention.Balanced first)
    (late : convention.Balanced second) : convention.Balanced (first ++ second) := by
  unfold Balanced at *
  rw [counts_append, early]
  exact late

/-- An item that needs no values may come before balanced code. -/
theorem Balanced.after {item : Item} {rest : Code} (balanced : convention.Balanced rest)
    (quiet : convention.count item 0 = some 0) : convention.Balanced (item :: rest) := by
  unfold Balanced at *
  rw [counts, quiet]
  exact balanced

/-- Loading a word leaves the floating-point stack alone. -/
theorem count_load (value : Operand) (width : Width) (register : Register) :
    convention.count (load value width register) 0 = some 0 := by
  unfold load
  split <;> rfl

/-- Loading a word may come before balanced code. -/
theorem Balanced.loaded {rest : Code} (balanced : convention.Balanced rest) (value : Operand)
    (width : Width) (register : Register) :
    convention.Balanced (load value width register :: rest) :=
  balanced.after (count_load value width register)

/-- What is loaded to be tested is popped again. -/
theorem balanced_compareZero (value : Operand) (type : Ty) :
    convention.Balanced (compareZero value type) := by
  unfold compareZero
  split
  · rfl
  · refine Balanced.loaded ?_ _ _ _
    rfl

/-- A condition is stored through words. -/
theorem balanced_storeCondition {opcode : Opcode}
    (quiet : ∀ arguments, convention.count (operate opcode arguments) 0 = some 0)
    (result : Operand) : convention.Balanced (storeCondition opcode result) :=
  Balanced.after rfl (quiet _)

theorem count_conditionOf (relation : Comparison) (type : Ty) (arguments : List Argument) :
    convention.count (operate (conditionOf relation type) arguments) 0 = some 0 := by
  unfold conditionOf
  cases relation <;> dsimp only <;> first | rfl | (split <;> rfl)

theorem balanced_scaleBy (scale : Nat) (register : Register) :
    convention.Balanced (scaleBy scale register) := by
  unfold scaleBy
  split <;> rfl

theorem balanced_loadBoth (left right : Operand) (leftType rightType : Ty)
    (scaleLeft scaleRight : Nat) :
    convention.Balanced (loadBoth left right leftType rightType scaleLeft scaleRight) :=
  ((balanced_scaleBy _ _).append ((balanced_scaleBy _ _).loaded _ _ _)).loaded _ _ _

/-- Arithmetic on numbers of either kind leaves nothing behind. -/
theorem balanced_arithmetic {real : Opcode} {words : Code}
    (works : ∀ arguments, convention.count (operate real arguments) 1 = some 1)
    (balanced : convention.Balanced words) (type : Ty) (left right result : Operand)
    (leftType rightType : Ty) (scaleLeft scaleRight : Nat) :
    convention.Balanced (arithmetic real words type left right result leftType rightType scaleLeft
      scaleRight) := by
  unfold arithmetic
  split
  · -- The left operand is pushed, worked on and popped.
    show ((convention.count (operate real [right]) 1).bind _) = some 0
    rw [works]
    rfl
  · exact ((balanced_loadBoth _ _ _ _ _ _).append balanced).append rfl

/-- A strict operator leaves nothing behind. -/
theorem balanced_operateOn (op : BinaryOp) (type leftType rightType : Ty)
    (left right result : Operand) :
    convention.Balanced (operateOn op type leftType rightType left right result) := by
  -- Whatever is loaded for an operation is stored at its end, in words or as a number.
  cases op with
  | multiply | divide | add => exact balanced_arithmetic (fun _ => rfl) (by rfl) _ _ _ _ _ _ _ _
  | remainder => exact ((balanced_loadBoth _ _ _ _ _ _).append (by rfl)).append (by rfl)
  | subtract scaleRight scaleResult =>
    refine (balanced_arithmetic (fun _ => rfl) (by rfl) _ _ _ _ _ _ _ _).append ?_
    unfold countElements
    split <;> rfl
  | compare relation =>
    refine Balanced.append ?_ (balanced_storeCondition (count_conditionOf relation leftType) result)
    split
    · rfl
    · exact (Balanced.loaded (by rfl) _ _ _).loaded _ _ _
  | logicalAnd | logicalOr => rfl

theorem balanced_negation (type operandType : Ty) (value result : Operand) :
    convention.Balanced (Expression.negation type operandType value result) := by
  unfold Expression.negation
  split
  · rfl
  · refine Balanced.loaded ?_ _ _ _
    rfl

/-- Each argument is pushed and popped on its own. -/
theorem balanced_passArguments (offset : Nat) (values : List (Operand × Width)) :
    convention.Balanced (passArguments offset values) := by
  induction values generalizing offset with
  | nil => rfl
  | cons value rest ih =>
    obtain ⟨operand, width⟩ := value
    simp only [passArguments]
    split
    · exact ih _
    · exact ((ih _).after rfl).loaded _ _ _

theorem balanced_copyPointed (type : Ty) (result : Operand) :
    convention.Balanced (copyPointed type result) := by
  unfold copyPointed
  dsimp only
  split <;> rfl

theorem balanced_loadAddress (place : Place) : convention.Balanced [loadAddress place] := by
  unfold loadAddress
  split
  · rfl
  · split <;> rfl

theorem balanced_resolve (place : Place) : convention.Balanced place.resolve.1 := by
  cases place <;> rfl

/-- A step pushes the stepped value and the amount, and pops their sum. -/
theorem balanced_stepTarget (op : StepOp) (scale : Nat) (type : Ty) (target result : Operand) :
    convention.Balanced (stepTarget op scale type target result) := by
  cases op <;> unfold stepTarget <;> dsimp only <;> split <;> rfl

/-- A conversion pops what it pushes, whatever scratch word it goes through. -/
theorem balanced_convertValue (source target : Ty) (value result : Operand) (progress : Progress) :
    convention.Balanced (convertValue source target value result progress).1 := by
  unfold convertValue
  cases Width.of source <;> cases Width.of target <;> dsimp only
  case double.double | double.long | double.byte => rfl
  -- A character goes through a scratch word, and so does a word without an address.
  case byte.double | long.double =>
    split
    · rfl
    · exact Balanced.loaded (by rfl) _ _ _
  all_goals exact Balanced.loaded (by rfl) _ _ _

/-- A stored value is popped, even when its place is readied in between. -/
theorem balanced_storeValue (leftType rightType : Ty) (place : Place) (value : Operand) :
    convention.Balanced (storeValue leftType rightType place value) := by
  unfold storeValue
  dsimp only
  cases place <;> split <;> first | rfl | exact Balanced.loaded (by rfl) _ _ _

theorem width_double_iff (type : Ty) : Width.of type = .double ↔ type.isReal := by
  unfold Width.of
  split
  · simp_all
  · split <;> simp_all

/-- What a call leaves is stored, if it leaves what its type says. -/
theorem balanced_storeReturned {name : String} {type : Ty}
    (honest : convention.leaves name = type.floats) (result : Operand) :
    convention.Balanced [operate .call [.callee name], storeReturned type result] := by
  -- The call leaves what its type says, which is what is stored.
  have called : convention.count (operate .call [.callee name]) 0 = some type.floats := by
    have most : type.floats ≤ 2 := by
      unfold Ty.floats
      split <;> omega
    simp [count, operate, pass, Opcode.jumps, Instruction.float, Instruction.returns, Opcode.floats,
      honest, most]
  show (convention.count _ 0).bind _ = _
  rw [called]
  unfold Ty.floats storeReturned
  have real := width_double_iff type
  split <;> split <;> first | rfl | simp_all

/-- A returned value is brought to the end of the function as its type says. -/
theorem balanced_give {type : Ty} (returned : type.floats = convention.returned) (value : Operand) :
    convention.Balanced [loadReturned type value, operate .jmp [.target convention.exit]] := by
  have real := width_double_iff type
  -- The value is left where the convention expects it.
  have loaded : convention.count (loadReturned type value) 0 = some convention.returned := by
    rw [← returned]
    unfold loadReturned Ty.floats
    split
    · rw [if_pos (real.mp ‹_›)]
      rfl
    · rw [if_neg (fun isReal => ‹¬ _› (real.mpr isReal))]
      exact count_load _ _ _
  show (convention.count _ 0).bind _ = _
  rw [loaded]
  show (if _ then some 0 else none).bind _ = _
  rw [if_pos rfl, if_pos (by simp)]
  rfl

end Convention

end SmallC
