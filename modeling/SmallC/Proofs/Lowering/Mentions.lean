import SmallC.Proofs.Lowering.Nodes

/-! Mentions: what the own code of a node names. There are registers, labels, numbers and the frame in
any code, and beyond these only the values of the node's parts and the function that it calls. -/

namespace SmallC

/-- A label, or an instruction all of whose arguments are good for its operation. -/
def Item.Mentions (good : Opcode → Argument → Prop) : Item → Prop
  | .code instruction => ∀ argument ∈ instruction.arguments, good instruction.opcode argument
  | .mark _ => True
  | .textSection | .dataSection | .entry _ | .frameSize .. | .visible _ | .common .. | .literal .. |
    .blank => False

/-- Code of labels and of instructions that name only what is good for their operations. -/
def Mentions (good : Opcode → Argument → Prop) (code : Code) : Prop :=
  ∀ item ∈ code, item.Mentions good

/-- An argument that every operation but a call may have. -/
def Allowed (good : Opcode → Argument → Prop) (argument : Argument) : Prop :=
  ∀ opcode, opcode ≠ .call → good opcode argument

/-- What is found in any code is good. -/
structure Common (good : Opcode → Argument → Prop) : Prop where
  /-- A register. -/
  register : ∀ register, Allowed good (.register register)
  /-- A label to go to. -/
  target : ∀ label, Allowed good (.target label)
  /-- A number inside the instruction. -/
  immediate : ∀ value, Allowed good (.operand (.immediate value))
  /-- A place in the frame. -/
  frame : ∀ offset, Allowed good (.operand (.frame offset))
  /-- What a register points to. -/
  indirect : ∀ register, Allowed good (.operand (.indirect register))
  /-- An argument of a call. -/
  outgoing : ∀ offset, Allowed good (.operand (.outgoing offset))

section Templates

variable {good : Opcode → Argument → Prop} {rest : Code} {left right value result : Operand}

@[simp] theorem mentions_nil : Mentions good [] := by simp [Mentions]

@[simp] theorem mentions_append {first second : Code} :
    Mentions good (first ++ second) ↔ Mentions good first ∧ Mentions good second :=
  List.forall_mem_append

@[simp] theorem mentions_operate {opcode : Opcode} {arguments : List Argument} :
    Mentions good (operate opcode arguments :: rest) ↔
      (∀ argument ∈ arguments, good opcode argument) ∧ Mentions good rest :=
  List.forall_mem_cons

@[simp] theorem mentions_mark {label : Label} :
    Mentions good (.mark label :: rest) ↔ Mentions good rest :=
  List.forall_mem_cons.trans (and_iff_right trivial)

/-- The condition of a comparison is no call. -/
theorem conditionOf_ne_call (relation : Comparison) (type : Ty) :
    conditionOf relation type ≠ .call := by
  cases relation with
  | equal | notEqual => exact Opcode.noConfusion
  | _ =>
    unfold conditionOf
    dsimp only
    split <;> exact Opcode.noConfusion

variable (common : Common good)

include common

/-- Loading a value names the value. -/
theorem mentions_load (read : Allowed good (.operand value)) (width : Width) (register : Register)
    (others : Mentions good rest) : Mentions good (load value width register :: rest) := by
  have named := common.register register
  unfold load
  split <;> simp [read _, named _, others]

theorem mentions_compareZero (read : Allowed good (.operand value)) (type : Ty) :
    Mentions good (compareZero value type) := by
  unfold compareZero
  split
  · simp [read _, common.register _ _]
  · refine mentions_load common read _ _ ?_
    simp [immediate, common.immediate _ _, common.register _ _]

theorem mentions_storeCondition {opcode : Opcode} (plain : opcode ≠ .call)
    (kept : Allowed good (.operand result)) : Mentions good (storeCondition opcode result) := by
  simp [storeCondition, kept _, plain, common.register _ _]

theorem mentions_loadBoth (first : Allowed good (.operand left))
    (second : Allowed good (.operand right)) (leftType rightType : Ty)
    (scaleLeft scaleRight : Nat) :
    Mentions good (loadBoth left right leftType rightType scaleLeft scaleRight) := by
  have scaled (scale : Nat) (register : Register) : Mentions good (scaleBy scale register) := by
    unfold scaleBy
    split <;> simp [immediate, common.immediate _ _, common.register _ _]
  refine mentions_load common first _ _ (mentions_append.mpr ⟨scaled _ _, ?_⟩)
  exact mentions_load common second _ _ (scaled _ _)

theorem mentions_arithmetic (first : Allowed good (.operand left))
    (second : Allowed good (.operand right)) (kept : Allowed good (.operand result)) {real : Opcode}
    (plain : real ≠ .call) {words : Code} (inside : Mentions good words) (type leftType rightType : Ty)
    (scaleLeft scaleRight : Nat) : Mentions good
      (arithmetic real words type left right result leftType rightType scaleLeft scaleRight) := by
  have both := mentions_loadBoth common first second leftType rightType scaleLeft scaleRight
  unfold arithmetic
  split
  · simp [realOperation, first _, second _, kept _, plain]
  · simp [both, inside, storeWord, kept _, common.register _ _]

/-- An operator names its operands. -/
theorem mentions_operateOn (first : Allowed good (.operand left))
    (second : Allowed good (.operand right)) (kept : Allowed good (.operand result)) (op : BinaryOp)
    (type leftType rightType : Ty) :
    Mentions good (operateOn op type leftType rightType left right result) := by
  -- Numbers of either kind are worked on by an opcode of their own.
  have numbers (real : Opcode) (plain : real ≠ .call) {words : Code} (inside : Mentions good words) :=
    mentions_arithmetic common first second kept plain inside type leftType rightType
  have words (opcode : Opcode) (plain : opcode ≠ .call) : Mentions good (onWords opcode) := by
    simp [onWords, plain, common.register _ _]
  have divided : Mentions good divideWords := by simp [divideWords, common.register _ _]
  have both := mentions_loadBoth common first second leftType rightType 0 0
  cases op with
  | multiply => exact numbers .fmull nofun (words .imull nofun) _ _
  | divide => exact numbers .fdivl nofun divided _ _
  | remainder => simp [operateOn, both, divided, kept _, common.register _ _]
  | add => exact numbers .faddl nofun (words .addl nofun) _ _
  | subtract scaleRight scaleResult =>
    refine mentions_append.mpr ⟨numbers .fsubl nofun (words .subl nofun) _ _, ?_⟩
    unfold countElements
    split <;>
      simp [divided, storeWord, kept _, immediate, common.immediate _ _, common.register _ _]
  | compare relation =>
    refine mentions_append.mpr
      ⟨?_, mentions_storeCondition common (conditionOf_ne_call _ _) kept⟩
    split
    · simp [first _, second _, common.register _ _]
    · refine mentions_load common first _ _ (mentions_load common second _ _ ?_)
      simp [common.register _ _]
  | logicalAnd | logicalOr => exact mentions_nil

theorem mentions_passArguments (offset : Nat) {values : List (Operand × Width)}
    (read : ∀ value ∈ values, Allowed good (.operand value.1)) :
    Mentions good (passArguments offset values) := by
  -- The offset grows with each argument that is passed.
  induction values generalizing offset with
  | nil => exact mentions_nil
  | cons first rest ih =>
    obtain ⟨value, width⟩ := first
    have here : Allowed good (.operand value) := read (value, width) (by simp)
    have others (offset : Nat) := ih offset fun other member => read other (by simp [member])
    simp only [passArguments]
    split
    · simp [here _, others, common.outgoing _ _]
    · refine mentions_load common here _ _ ?_
      simp [others, common.outgoing _ _, common.register _ _]

theorem mentions_stepTarget {target : Operand} (stepped : Allowed good (.operand target))
    (kept : Allowed good (.operand result)) (op : StepOp) (scale : Nat) (type : Ty) :
    Mentions good (stepTarget op scale type target result) := by
  unfold stepTarget
  cases op <;> dsimp only <;> split <;>
    simp [stepped _, kept _, immediate, common.immediate _ _, common.register _ _]

theorem mentions_convertValue (read : Allowed good (.operand value))
    (kept : Allowed good (.operand result)) (source type : Ty) (progress : Progress) :
    Mentions good (convertValue source type value result progress).1 := by
  unfold convertValue
  -- There is a template for each pair of widths, several of which begin with the same load.
  cases Width.of source <;> cases Width.of type <;> dsimp only
  case double.double | double.long => simp [Lowering.pure_eq, read _, kept _]
  case double.byte =>
    simp [Lowering.bind_eq, Lowering.pure_eq, Lowering.temporary_eq, Progress.slot, read _, kept _,
      common.frame _ _, common.register _ _]
  case byte.double | long.double =>
    split
    · simp [Lowering.pure_eq, read _, kept _]
    · refine mentions_load common read _ _ ?_
      simp [storeWord, kept _, common.frame _ _, common.register _ _]
  case byte.long | long.long =>
    refine mentions_load common read _ _ ?_
    simp [storeWord, kept _, common.register _ _]
  case byte.byte | long.byte =>
    refine mentions_load common read _ _ ?_
    simp [kept _, common.register _ _]

/-- The operand of a place may be named. -/
def Place.Allowed (good : Opcode → Argument → Prop) : Place → Prop
  | .direct operand | .indirect operand => SmallC.Allowed good (.operand operand)

theorem mentions_resolve {place : Place} (read : place.Allowed good) :
    Mentions good place.resolve.1 ∧ Allowed good (.operand place.resolve.2) := by
  cases place with
  | direct operand => exact ⟨mentions_nil, read⟩
  | indirect pointer =>
    refine ⟨?_, common.indirect .ecx⟩
    have named : Allowed good (.operand pointer) := read
    simp [Place.resolve, named _, common.register _ _]

theorem mentions_loadAddress {place : Place} (read : place.Allowed good) (others : Mentions good rest) :
    Mentions good (loadAddress place :: rest) := by
  -- What is reached by a pointer has the pointer for its address.
  cases place with
  | direct value =>
    have named : Allowed good (.operand value) := read
    unfold loadAddress
    dsimp only
    split <;> simp [named _, others, common.register _ _]
  | indirect pointer =>
    have named : Allowed good (.operand pointer) := read
    simp [loadAddress, named _, others, common.register _ _]

theorem mentions_storeValue {place : Place} (reached : place.Allowed good)
    (read : Allowed good (.operand value)) (leftType rightType : Ty) :
    Mentions good (storeValue leftType rightType place value) := by
  obtain ⟨ready, target⟩ := mentions_resolve common reached
  unfold storeValue
  dsimp only
  -- A double, a character and a word go by different instructions, which name the same places.
  split
  · simp [read _, ready, target _]
  · simp [read _, ready, target _, common.register _ _]
  · refine mentions_load common read _ _ ?_
    simp [ready, target _, common.register _ _]

theorem mentions_loadReturned (read : Allowed good (.operand value)) (type : Ty)
    (others : Mentions good rest) : Mentions good (loadReturned type value :: rest) := by
  unfold loadReturned
  split
  · simp [read _, others]
  · exact mentions_load common read _ _ others

end Templates

namespace Expression

variable {good : Opcode → Argument → Prop} (common : Common good) {progress : Progress}

/-- A place names at most the value of its target. -/
theorem allowed_located {operand : Expression}
    (read : Allowed good (.operand (operand.target.lowered progress).value)) :
    (operand.located progress).place.Allowed good := by
  rcases located_place progress operand with behind | ⟨itself, direct⟩
  · rw [behind]
    exact read
  · rw [direct, ← itself]
    exact read

include common

/-- The own code of a node names the values of its parts and the function that it calls. -/
theorem mentions_own {expression : Expression} (strict : expression.isDecision = false)
    (values : ∀ part ∈ loweredAll expression.parts progress, Allowed good (.operand part.value))
    (calls : ∀ callee arguments type, expression = .call callee arguments type →
      good .call (.callee (progress.symbols.nameOf callee))) :
    Mentions good (expression.own progress) := by
  have kept : Allowed good (.operand (expression.result progress)) := common.frame _
  -- Most nodes have one part, and read its value.
  have single {operand : Expression} (parts : expression.parts = [operand]) :
      Allowed good (.operand (operand.lowered progress).value) :=
    values _ (by rw [parts, loweredAll_cons]; exact List.mem_cons_self)
  cases expression with
  | integer | real | string | identifier => simp
  | call callee arguments type =>
    rw [own_call, mentions_append, mentions_operate]
    refine ⟨mentions_passArguments common _ fun value member => ?_,
      by simpa using calls callee arguments type rfl, ?_⟩
    · obtain ⟨lowered, present, same⟩ := List.mem_map.mp (List.of_mem_zip member).1
      exact same ▸ values lowered present
    · unfold storeReturned
      split <;> simp [kept _, common.register _ _]
  | unary op operand type =>
    cases op with
    | not =>
      rw [own_not, mentions_append]
      exact ⟨mentions_compareZero common (single rfl) _,
        mentions_storeCondition common nofun kept⟩
    | negate =>
      rw [own_negate]
      unfold negation
      split
      · simp [single rfl _, kept _]
      · refine mentions_load common (single rfl) _ _ ?_
        simp [storeWord, kept _, common.register _ _]
    | dereference =>
      have read := single rfl
      rw [own_dereference]
      unfold copyPointed
      dsimp only
      split <;> simp [read _, kept _, common.register _ _, common.indirect _ _]
    | address =>
      rw [own_address]
      refine mentions_loadAddress common (allowed_located (single rfl)) ?_
      simp [storeWord, kept _, common.register _ _]
    | cast =>
      rw [own_cast]
      exact mentions_convertValue common (single rfl) kept _ _ _
  | step op scale operand type =>
    obtain ⟨ready, target⟩ := mentions_resolve common (allowed_located (single rfl))
    rw [own_step, mentions_append]
    exact ⟨ready, mentions_stepTarget common target kept _ _ _⟩
  | binary op left right type =>
    rw [own_binary progress strict]
    refine mentions_operateOn common (values _ ?_) (values _ ?_) kept _ _ _ _ <;>
      simp [parts, loweredAll_cons]

end Expression

end SmallC
