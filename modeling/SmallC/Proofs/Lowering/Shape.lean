import SmallC.Proofs.Lowering.Progress

/-! The shape of lowered expressions: the parts in order, and then straight code of the node. -/

namespace SmallC

/-- Whether an instruction may go on elsewhere than after itself. -/
def Opcode.jumps : Opcode → Bool
  | .jmp | .je | .jne | .ret => true
  | _ => false

/-- Whether the item is an instruction after which the next one runs. -/
def Item.isStep : Item → Bool
  | .code instruction => !instruction.opcode.jumps
  | _ => false

/-- Code that runs from its first to its last instruction. -/
def Straight (code : Code) : Prop := ∀ item ∈ code, item.isStep = true

/-- No code at all is straight. -/
theorem straight_nil : Straight [] := by simp [Straight]

/-- Straight code goes on with straight code. -/
theorem Straight.append {first second : Code} (early : Straight first) (late : Straight second) :
    Straight (first ++ second) := by
  intro item member
  rcases List.mem_append.mp member with member | member
  · exact early item member
  · exact late item member

/-- An instruction that does not jump may come before straight code. -/
theorem straight_cons {opcode : Opcode} {arguments : List Argument} {code : Code}
    (steps : opcode.jumps = false) (straight : Straight code) :
    Straight (operate opcode arguments :: code) := by
  intro item member
  rcases List.mem_cons.mp member with rfl | member
  · simp [operate, Item.isStep, steps]
  · exact straight item member

/-- Loading a value is a step. -/
theorem isStep_load (value : Operand) (width : Width) (register : Register) :
    (load value width register).isStep = true := by
  unfold load
  split <;> rfl

/-- Loading a value before straight code is straight. -/
theorem straight_load {value : Operand} {width : Width} {register : Register} {code : Code}
    (straight : Straight code) : Straight (load value width register :: code) := by
  intro item member
  rcases List.mem_cons.mp member with rfl | member
  · exact isStep_load _ _ _
  · exact straight item member

/-- Comparing with zero is straight. -/
theorem straight_compareZero (value : Operand) (type : Ty) : Straight (compareZero value type) := by
  unfold compareZero
  split
  · repeat refine straight_cons rfl ?_
    exact straight_nil
  · exact straight_load (straight_cons rfl straight_nil)

/-- Storing a condition is straight. -/
theorem straight_storeCondition {opcode : Opcode} (steps : opcode.jumps = false)
    (result : Operand) : Straight (storeCondition opcode result) :=
  straight_cons steps (straight_cons rfl (straight_cons rfl straight_nil))

/-- The condition of a comparison is no jump. -/
theorem jumps_conditionOf (relation : Comparison) (type : Ty) :
    (conditionOf relation type).jumps = false := by
  unfold conditionOf
  cases relation <;> dsimp only <;> first | rfl | (split <;> rfl)

/-- Scaling is straight. -/
theorem straight_scaleBy (scale : Nat) (register : Register) : Straight (scaleBy scale register) := by
  unfold scaleBy
  split
  · exact straight_cons rfl straight_nil
  · exact straight_nil

/-- Loading both operands is straight. -/
theorem straight_loadBoth (left right : Operand) (leftType rightType : Ty)
    (scaleLeft scaleRight : Nat) :
    Straight (loadBoth left right leftType rightType scaleLeft scaleRight) :=
  straight_load ((straight_scaleBy _ _).append (straight_load (straight_scaleBy _ _)))

/-- Dividing is straight. -/
theorem straight_divideWords : Straight divideWords :=
  straight_cons rfl (straight_cons rfl straight_nil)

/-- Storing the first register is straight. -/
theorem straight_storeWord (result : Operand) : Straight [storeWord result] :=
  straight_cons rfl straight_nil

/-- Arithmetic is straight. -/
theorem straight_arithmetic {real : Opcode} {words : Code} (steps : real.jumps = false)
    (straight : Straight words) (type : Ty) (left right result : Operand) (leftType rightType : Ty)
    (scaleLeft scaleRight : Nat) :
    Straight (arithmetic real words type left right result leftType rightType scaleLeft
      scaleRight) := by
  unfold arithmetic
  split
  · exact straight_cons rfl (straight_cons steps (straight_cons rfl straight_nil))
  · exact ((straight_loadBoth _ _ _ _ _ _).append straight).append (straight_storeWord _)

/-- A strict operator on computed values is straight. -/
theorem straight_operateOn (op : BinaryOp) (type leftType rightType : Ty)
    (left right result : Operand) :
    Straight (operateOn op type leftType rightType left right result) := by
  -- Each operator is made of loads, arithmetic and stores.
  have words (opcode : Opcode) (steps : opcode.jumps = false) : Straight (onWords opcode) :=
    straight_cons steps straight_nil
  cases op with
  | multiply => exact straight_arithmetic rfl (words .imull rfl) _ _ _ _ _ _ _ _
  | divide => exact straight_arithmetic rfl straight_divideWords _ _ _ _ _ _ _ _
  | remainder =>
    exact ((straight_loadBoth _ _ _ _ _ _).append straight_divideWords).append
      (straight_cons rfl straight_nil)
  | add => exact straight_arithmetic rfl (words .addl rfl) _ _ _ _ _ _ _ _
  | subtract scaleRight scaleResult =>
    refine (straight_arithmetic rfl (words .subl rfl) _ _ _ _ _ _ _ _).append ?_
    unfold countElements
    split
    · exact ((straight_cons rfl (straight_cons rfl straight_nil)).append
        straight_divideWords).append (straight_storeWord _)
    · exact straight_nil
  | compare relation =>
    refine Straight.append ?_ (straight_storeCondition (jumps_conditionOf _ _) _)
    split
    · repeat refine straight_cons rfl ?_
      exact straight_nil
    · exact straight_load (straight_load (straight_cons rfl straight_nil))
  | logicalAnd => exact straight_nil
  | logicalOr => exact straight_nil

/-- Passing arguments is straight. -/
theorem straight_passArguments (offset : Nat) (values : List (Operand × Width)) :
    Straight (passArguments offset values) := by
  induction values generalizing offset with
  | nil => exact straight_nil
  | cons value rest ih =>
    obtain ⟨operand, width⟩ := value
    simp only [passArguments]
    split
    · exact straight_cons rfl (straight_cons rfl (ih _))
    · exact straight_load (straight_cons rfl (ih _))

/-- Keeping what was returned is straight. -/
theorem straight_storeReturned (type : Ty) (result : Operand) :
    Straight [storeReturned type result] := by
  unfold storeReturned
  split <;> exact straight_cons rfl straight_nil

/-- Copying what is pointed to is straight. -/
theorem straight_copyPointed (type : Ty) (result : Operand) :
    Straight (copyPointed type result) := by
  unfold copyPointed
  dsimp only
  split <;> exact straight_cons rfl (straight_cons rfl straight_nil)

/-- Bringing an address into the first register is straight. -/
theorem straight_loadAddress (place : Place) : Straight [loadAddress place] := by
  unfold loadAddress
  split
  · exact straight_cons rfl straight_nil
  · split <;> exact straight_cons rfl straight_nil

/-- Readying a place is straight. -/
theorem straight_resolve (place : Place) : Straight place.resolve.1 := by
  cases place with
  | direct operand => exact straight_nil
  | indirect pointer => exact straight_cons rfl straight_nil

/-- Stepping a target is straight. -/
theorem straight_stepTarget (op : StepOp) (scale : Nat) (type : Ty) (target result : Operand) :
    Straight (stepTarget op scale type target result) := by
  cases op <;> unfold stepTarget <;> dsimp only <;> split <;>
    intro item member <;> simp [operate] at member <;> rcases member with
      rfl | rfl | rfl | rfl | rfl | rfl <;> rfl

/-- Converting a value is straight. -/
theorem straight_convertValue (source target : Ty) (value result : Operand) (progress : Progress) :
    Straight (convertValue source target value result progress).1 := by
  -- The widths decide what is emitted; the scratch word changes no instruction.
  unfold convertValue
  cases Width.of source <;> cases Width.of target <;> dsimp only
  case double.double | double.long => exact straight_cons rfl (straight_cons rfl straight_nil)
  case double.byte =>
    exact straight_cons rfl (straight_cons rfl (straight_cons rfl (straight_cons rfl straight_nil)))
  case byte.double | long.double =>
    split
    · exact straight_cons rfl (straight_cons rfl straight_nil)
    · exact straight_load (straight_cons rfl (straight_cons rfl (straight_cons rfl straight_nil)))
  case byte.long | long.long => exact straight_load (straight_storeWord _)
  case byte.byte | long.byte => exact straight_load (straight_cons rfl straight_nil)

/-- Storing a computed value is straight. -/
theorem straight_storeValue (leftType rightType : Ty) (place : Place) (value : Operand) :
    Straight (storeValue leftType rightType place value) := by
  have ready := straight_resolve place
  unfold storeValue
  dsimp only
  split
  · exact straight_cons rfl (ready.append (straight_cons rfl straight_nil))
  · exact straight_cons rfl (ready.append (straight_cons rfl straight_nil))
  · exact straight_load (ready.append (straight_cons rfl straight_nil))

/-- Bringing a returned value to where the caller finds it is straight. -/
theorem straight_loadReturned (type : Ty) (value : Operand) :
    Straight [loadReturned type value] := by
  unfold loadReturned
  split
  · exact straight_cons rfl straight_nil
  · exact straight_load straight_nil

namespace Expression

/-- What is computed to reach the place of an expression: the pointer, when it follows one. -/
def target : Expression → Expression
  | .unary .dereference pointer _ => pointer
  | operand => operand

/-- What is computed before the node itself, in order, unless the node is a decision. -/
def parts : Expression → List Expression
  | .call _ arguments _ => arguments
  | .unary .address operand _ | .step _ _ operand _ => [operand.target]
  | .unary _ operand _ => [operand]
  | .binary _ left right _ => [left, right]
  | .integer .. | .real _ | .string _ | .identifier .. => []

/-- Whether the node may do without its right operand. -/
def isDecision : Expression → Bool
  | .binary .logicalAnd .. | .binary .logicalOr .. => true
  | _ => false

/-- The code of expressions in order. -/
def codeAll (expressions : List Expression) (progress : Progress) : Code :=
  (loweredAll expressions progress).flatMap Lowered.code

/-- The code of a node itself, after that of its parts. -/
def own (expression : Expression) (progress : Progress) : Code :=
  (expression.lowered progress).code.drop (codeAll expression.parts progress).length

variable (progress : Progress)

/-- No code computes no expressions. -/
@[simp] theorem codeAll_nil : codeAll [] progress = [] := rfl

/-- The codes of expressions follow each other. -/
theorem codeAll_cons (first : Expression) (rest : List Expression) :
    codeAll (first :: rest) progress =
      (first.lowered progress).code ++ codeAll rest (first.after progress) := by
  unfold codeAll
  rw [loweredAll_cons, List.flatMap_cons]

/-- The code of a single expression stands alone. -/
theorem codeAll_single (expression : Expression) :
    codeAll [expression] progress = (expression.lowered progress).code := by
  simp [codeAll_cons]

/-- A place is reached by computing its target. -/
theorem located_target (operand : Expression) :
    (operand.located progress).code = (operand.target.lowered progress).code ∧
      operand.locatedAfter progress = operand.target.after progress := by
  -- Only what is behind a pointer has a target other than itself.
  unfold located locatedAfter
  by_cases behind : ∃ pointer type, operand = .unary .dereference pointer type
  · obtain ⟨pointer, type, rfl⟩ := behind
    exact ⟨rfl, rfl⟩
  · have direct : ∀ pointer type, operand ≠ .unary .dereference pointer type := by
      intro pointer type same
      exact behind ⟨pointer, type, same⟩
    rw [lowerPlace_itself _ direct]
    unfold target
    split
    · exact absurd rfl (direct _ _)
    · exact ⟨rfl, rfl⟩

/-- What lowering a strict node comes to: its parts, then straight code of its own. -/
structure Shaped (expression : Expression) (progress : Progress) (own : Code) : Prop where
  /-- The parts come first. -/
  code : (expression.lowered progress).code = codeAll expression.parts progress ++ own
  /-- The node's own code runs straight through. -/
  straight : Straight own
  /-- The node hands out its places after its parts. -/
  evaluates : (afterAll expression.parts progress).Evaluates (expression.after progress)

/-- Lowering gives the shape that is read off its result. -/
theorem shaped_of_lower {expression : Expression} {before own : Code} {value : Operand}
    {last : Progress} (lowers : lower expression progress = (⟨before ++ own, value⟩, last))
    (parts : before = codeAll expression.parts progress) (straight : Straight own)
    (evaluates : (afterAll expression.parts progress).Evaluates last) :
    expression.Shaped progress own := by
  subst parts
  refine ⟨?_, straight, ?_⟩
  · unfold lowered
    rw [lowers]
  · unfold after
    rwa [lowers]

/-- A conversion takes at most a scratch word. -/
theorem evaluates_convertValue (source type : Ty) (value result : Operand) :
    progress.Evaluates (convertValue source type value result progress).2 := by
  unfold convertValue
  cases Width.of source <;> cases Width.of type <;> dsimp only
  -- Only three conversions go through memory on their way.
  case double.byte => exact progress.evaluates_take .int
  case byte.double | long.double =>
    split
    · exact .refl _
    · exact progress.evaluates_take .int
  all_goals exact .refl _

/-- An opposite is straight. -/
theorem straight_negation (type operandType : Ty) (value result : Operand) :
    Straight (negation type operandType value result) := by
  unfold negation
  split
  · exact straight_cons rfl (straight_cons rfl (straight_cons rfl straight_nil))
  · exact straight_load (straight_cons rfl (straight_storeWord _))

/-- The operator of a node that is no decision is neither of the two that decide. -/
theorem operator_strict {op : BinaryOp} {left right : Expression} {type : Ty}
    (strict : (Expression.binary op left right type).isDecision = false) :
    op ≠ .logicalAnd ∧ op ≠ .logicalOr := by
  constructor <;> (rintro rfl; contradiction)

/-- A decision is made of two operands. -/
theorem decision_cases {expression : Expression} (decides : expression.isDecision = true) :
    ∃ either left right type, expression = .binary (decision either) left right type := by
  cases expression with
  | binary op left right type =>
    cases op with
    | logicalAnd => exact ⟨false, left, right, type, rfl⟩
    | logicalOr => exact ⟨true, left, right, type, rfl⟩
    | _ => cases decides
  | _ => cases decides

/-- Every node that is no decision has the shape. -/
theorem exists_shaped {expression : Expression} (strict : expression.isDecision = false) :
    ∃ own, expression.Shaped progress own := by
  -- The parts and the own code are read off what lowering gives for each node.
  cases expression with
  | integer value type =>
    exact ⟨[], shaped_of_lower _ (lower_integer ..) rfl straight_nil (.refl _)⟩
  | real spelling =>
    exact ⟨[], shaped_of_lower _ (lower_real ..) rfl straight_nil (progress.evaluates_keep _)⟩
  | string text =>
    exact ⟨[], shaped_of_lower _ (lower_string ..) rfl straight_nil (progress.evaluates_keep _)⟩
  | identifier symbol type =>
    exact ⟨[], shaped_of_lower _ (lower_identifier ..) rfl straight_nil (.refl _)⟩
  | call callee arguments type =>
    refine ⟨_, shaped_of_lower _ (lower_call ..) rfl ?_ ?_⟩
    · exact (straight_passArguments _ _).append (straight_cons rfl (straight_storeReturned _ _))
    · exact (Progress.evaluates_reserve _ _).trans (Progress.evaluates_take _ _)
  | unary op operand type =>
    cases op with
    | not =>
      refine ⟨_, shaped_of_lower _ (lower_not ..) (codeAll_single ..).symm ?_
        (Progress.evaluates_take _ _)⟩
      exact (straight_compareZero _ _).append (straight_storeCondition rfl _)
    | negate =>
      exact ⟨_, shaped_of_lower _ (lower_negate ..) (codeAll_single ..).symm
        (straight_negation _ _ _ _) (Progress.evaluates_take _ _)⟩
    | dereference =>
      exact ⟨_, shaped_of_lower _ (lower_dereference ..) (codeAll_single ..).symm
        (straight_cons rfl (straight_copyPointed _ _)) (Progress.evaluates_take _ _)⟩
    | address =>
      obtain ⟨code, last⟩ := located_target progress operand
      refine ⟨_, shaped_of_lower _ (lower_address ..) (code.trans (codeAll_single ..).symm)
        ((straight_loadAddress _).append (straight_storeWord _)) ?_⟩
      rw [last]
      exact Progress.evaluates_take _ _
    | cast =>
      exact ⟨_, shaped_of_lower _ (lower_cast ..) (codeAll_single ..).symm
        (straight_convertValue _ _ _ _ _)
        ((Progress.evaluates_take _ _).trans (evaluates_convertValue _ _ _ _ _))⟩
  | step op scale operand type =>
    obtain ⟨code, last⟩ := located_target progress operand
    refine ⟨_, shaped_of_lower _ (lower_step ..) (code.trans (codeAll_single ..).symm)
      ((straight_resolve _).append (straight_stepTarget _ _ _ _ _)) ?_⟩
    rw [last]
    exact Progress.evaluates_take _ _
  | binary op left right type =>
    obtain ⟨conjunction, disjunction⟩ := operator_strict strict
    refine ⟨_, shaped_of_lower _ (lower_binary _ conjunction disjunction ..) ?_
      (straight_operateOn _ _ _ _ _ _ _) (Progress.evaluates_take _ _)⟩
    rw [parts, codeAll_cons, codeAll_single]

/-- A node that is no decision computes its parts and then runs its own code. -/
theorem shaped_own {expression : Expression} (strict : expression.isDecision = false) :
    expression.Shaped progress (expression.own progress) := by
  -- The own code is what is left of the code behind the parts.
  obtain ⟨own, shaped⟩ := exists_shaped progress strict
  have same : expression.own progress = own := by
    unfold Expression.own
    rw [shaped.code, List.drop_left]
  rwa [same]

/-- Expressions are built from their parts, and decisions from their operands. -/
theorem inductionOnParts {motive : Expression → Prop}
    (strict : ∀ expression : Expression, expression.isDecision = false →
      (∀ part ∈ expression.parts, motive part) → motive expression)
    (decision : ∀ either left right type, motive left → motive right →
      motive (.binary (decision either) left right type))
    (expression : Expression) : motive expression := by
  -- The target of a place may lie two levels down, so it is carried along.
  have leaf {node : Expression} (plain : node.isDecision = false) (alone : node.parts = [])
      (itself : node.target = node) : motive node ∧ motive node.target := by
    have holds : motive node := strict node plain (by simp [alone])
    exact ⟨holds, by rwa [itself]⟩
  refine (@Expression.rec (fun node => motive node ∧ motive node.target)
    (fun nodes => ∀ node ∈ nodes, motive node) ?integer ?real ?string ?identifier ?call ?unary ?step
    ?binary ?nil ?cons expression).1
  case integer => exact fun value type => leaf rfl rfl rfl
  case real => exact fun spelling => leaf rfl rfl rfl
  case string => exact fun text => leaf rfl rfl rfl
  case identifier => exact fun symbol type => leaf rfl rfl rfl
  case call =>
    intro callee arguments type each
    have holds : motive (.call callee arguments type) := strict _ rfl each
    exact ⟨holds, holds⟩
  case unary =>
    intro op operand type below
    have holds : motive (.unary op operand type) := by
      refine strict _ rfl ?_
      cases op <;> simp [parts, below]
    refine ⟨holds, ?_⟩
    cases op <;> simp [target, holds, below]
  case step =>
    intro op scale operand type below
    have holds : motive (.step op scale operand type) := strict _ rfl (by simp [parts, below])
    exact ⟨holds, holds⟩
  case binary =>
    intro op left right type first second
    have holds : motive (.binary op left right type) := by
      cases op with
      | logicalAnd => exact decision false left right type first.1 second.1
      | logicalOr => exact decision true left right type first.1 second.1
      | _ => exact strict _ rfl (by simp [parts, first, second])
    exact ⟨holds, holds⟩
  case nil => simp
  case cons =>
    intro first rest head tail node member
    rcases List.mem_cons.mp member with rfl | member
    · exact head.1
    · exact tail node member

/-- What has been handed out after a decision is what its right operand left. -/
theorem after_decision (either : Bool) (left right : Expression) (type : Ty) :
    (Expression.binary (decision either) left right type).after progress =
      right.after (left.after (progress.enter type)) := by
  unfold after
  rw [lower_decision]
  rfl

/-- Expressions that each make progress make it together. -/
theorem evaluatesAll_of {expressions : List Expression}
    (each : ∀ expression ∈ expressions, ∀ progress : Progress,
      progress.Evaluates (expression.after progress)) (progress : Progress) :
    progress.Evaluates (afterAll expressions progress) := by
  induction expressions generalizing progress with
  | nil => exact .refl _
  | cons first rest ih =>
    rw [afterAll_cons]
    exact (each first (by simp) progress).trans
      (ih (fun expression member => each expression (by simp [member])) _)

/-- Lowering an expression is progress that places no symbols. -/
theorem evaluates (expression : Expression) (progress : Progress) :
    progress.Evaluates (expression.after progress) := by
  -- By induction on parts; the own code of a node hands out at most places.
  induction expression using inductionOnParts generalizing progress with
  | strict expression plain ih =>
    exact (evaluatesAll_of ih progress).trans (shaped_own progress plain).evaluates
  | decision either left right type first second =>
    rw [after_decision]
    exact (progress.evaluates_enter type).trans ((first _).trans (second _))

/-- Lowering expressions in order is progress that places no symbols. -/
theorem evaluatesAll (expressions : List Expression) (progress : Progress) :
    progress.Evaluates (afterAll expressions progress) :=
  evaluatesAll_of (fun expression _ => expression.evaluates) progress

/-- Reaching a place is progress that places no symbols. -/
theorem evaluates_located (expression : Expression) (progress : Progress) :
    progress.Evaluates (expression.locatedAfter progress) := by
  rw [(located_target progress expression).2]
  exact expression.target.evaluates progress

end Expression

end SmallC
