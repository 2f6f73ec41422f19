import SmallC.Proofs.Lowering.Sites

/-! Nodes: what the own code of each kind of node is made of, and where it leaves the value. -/

namespace SmallC

namespace Expression

variable (progress : Progress)

/-- The place that a node takes for its value, once its parts have been computed. -/
def result (expression : Expression) (progress : Progress) : Operand :=
  (afterAll expression.parts progress).slot expression.type

/-- What lowering adds to the code of the parts is the node's own code. -/
theorem own_of_lower {expression : Expression} {before own : Code} {value : Operand}
    {last : Progress} (lowers : lower expression progress = (⟨before ++ own, value⟩, last))
    (parts : before = codeAll expression.parts progress) : expression.own progress = own := by
  unfold Expression.own lowered
  rw [lowers, parts, List.drop_left]

/-- Constants and names are there without any code. -/
theorem own_leaf {expression : Expression}
    (bare : (expression.lowered progress).code = []) : expression.own progress = [] := by
  unfold Expression.own
  rw [bare, List.drop_nil]

@[simp] theorem own_integer (value : UInt32) (type : Ty) :
    (integer value type).own progress = [] := by
  refine own_leaf _ ?_
  unfold lowered
  rw [lower_integer]

@[simp] theorem own_real (spelling : String) : (real spelling).own progress = [] := by
  refine own_leaf _ ?_
  unfold lowered
  rw [lower_real]

@[simp] theorem own_string (text : String) : (string text).own progress = [] := by
  refine own_leaf _ ?_
  unfold lowered
  rw [lower_string]

@[simp] theorem own_identifier (symbol : SymbolId) (type : Ty) :
    (identifier symbol type).own progress = [] := by
  refine own_leaf _ ?_
  unfold lowered
  rw [lower_identifier]

/-- A call passes its arguments, calls, and keeps what is returned. -/
theorem own_call (callee : SymbolId) (arguments : List Expression) (type : Ty) :
    (call callee arguments type).own progress = passing progress arguments
      ++ [operate .call [.callee (progress.symbols.nameOf callee)],
        storeReturned type ((call callee arguments type).result progress)] := by
  have symbols := (evaluatesAll arguments progress).symbols
  refine own_of_lower progress (lower_call progress callee arguments type) rfl |>.trans ?_
  rw [← symbols]
  rfl

theorem own_not (operand : Expression) (type : Ty) :
    (unary .not operand type).own progress =
      compareZero (operand.lowered progress).value operand.type
        ++ storeCondition .sete ((unary .not operand type).result progress) :=
  own_of_lower progress (lower_not ..) (codeAll_single ..).symm

theorem own_negate (operand : Expression) (type : Ty) :
    (unary .negate operand type).own progress =
      negation type operand.type (operand.lowered progress).value
        ((unary .negate operand type).result progress) :=
  own_of_lower progress (lower_negate ..) (codeAll_single ..).symm

theorem own_dereference (pointer : Expression) (type : Ty) :
    (unary .dereference pointer type).own progress =
      operate .movl [(pointer.lowered progress).value, Register.eax]
        :: copyPointed type ((unary .dereference pointer type).result progress) :=
  own_of_lower progress (lower_dereference ..) (codeAll_single ..).symm

theorem own_address (operand : Expression) (type : Ty) :
    (unary .address operand type).own progress =
      [loadAddress (operand.located progress).place,
        storeWord ((unary .address operand type).result progress)] := by
  obtain ⟨code, last⟩ := located_target progress operand
  refine (own_of_lower progress (lower_address ..) (code.trans (codeAll_single ..).symm)).trans ?_
  rw [last]
  rfl

theorem own_cast (operand : Expression) (type : Ty) :
    (unary .cast operand type).own progress =
      (convertValue operand.type type (operand.lowered progress).value
        ((unary .cast operand type).result progress) ((operand.after progress).take type)).1 :=
  own_of_lower progress (lower_cast ..) (codeAll_single ..).symm

theorem own_step (op : StepOp) (scale : Nat) (operand : Expression) (type : Ty) :
    (step op scale operand type).own progress =
      (operand.located progress).place.resolve.1 ++ stepTarget op scale operand.type
        (operand.located progress).place.resolve.2 ((step op scale operand type).result progress) := by
  obtain ⟨code, last⟩ := located_target progress operand
  refine (own_of_lower progress (lower_step ..) (code.trans (codeAll_single ..).symm)).trans ?_
  rw [last]
  rfl

theorem own_binary {op : BinaryOp} {left right : Expression} {type : Ty}
    (strict : (binary op left right type).isDecision = false) :
    (binary op left right type).own progress =
      operateOn op type left.type right.type (left.lowered progress).value
        (right.lowered (left.after progress)).value ((binary op left right type).result progress) := by
  obtain ⟨conjunction, disjunction⟩ := operator_strict strict
  refine own_of_lower progress (lower_binary progress conjunction disjunction left right type) ?_
  rw [parts, codeAll_cons, codeAll_single]

/-- Whether an expression is a constant or a name, which take no place for their values. -/
def isLeaf : Expression → Bool
  | .integer .. | .real _ | .string _ | .identifier .. => true
  | .call .. | .unary .. | .step .. | .binary .. => false

/-- A node that is no leaf leaves its value in the place it takes. -/
theorem value_result {expression : Expression} (inner : expression.isLeaf = false)
    (strict : expression.isDecision = false) :
    (expression.lowered progress).value = expression.result progress := by
  unfold lowered
  -- What each lowering returns is the place that it has taken last.
  cases expression with
  | integer | real | string | identifier => cases inner
  | call callee arguments type => rw [lower_call]; rfl
  | unary op operand type =>
    cases op with
    | not => rw [lower_not]; rfl
    | negate => rw [lower_negate]; rfl
    | dereference => rw [lower_dereference]; rfl
    | address => rw [lower_address]; dsimp only; rw [(located_target progress operand).2]; rfl
    | cast => rw [lower_cast]; rfl
  | step op scale operand type =>
    rw [lower_step]
    dsimp only
    rw [(located_target progress operand).2]
    rfl
  | binary op left right type =>
    obtain ⟨conjunction, disjunction⟩ := operator_strict strict
    rw [lower_binary _ conjunction disjunction]
    rfl

/-- A decision leaves its value in the place it takes first. -/
theorem value_settled (either : Bool) (left right : Expression) (type : Ty) :
    ((binary (decision either) left right type).lowered progress).value =
      progress.skip.skip.slot type := by
  unfold lowered
  rw [lower_decision]

/-- A node that is no leaf leaves its value in the frame. -/
theorem value_frame {expression : Expression} (inner : expression.isLeaf = false) :
    ∃ place type, (expression.lowered progress).value = Progress.slot place type := by
  cases strict : expression.isDecision with
  | false => exact ⟨_, _, value_result progress inner strict⟩
  | true =>
    obtain ⟨either, left, right, type, rfl⟩ := decision_cases strict
    exact ⟨_, _, value_settled progress either left right type⟩

/-- A place is behind the value of its target when a pointer leads to it, and else at it. -/
theorem located_place (operand : Expression) :
    (operand.located progress).place = .indirect (operand.target.lowered progress).value ∨
      operand.target = operand ∧
        (operand.located progress).place = .direct (operand.lowered progress).value := by
  rcases operand.target_cases with ⟨pointer, pointed, rfl⟩ | ⟨itself, direct⟩
  · exact .inl rfl
  · refine .inr ⟨itself, ?_⟩
    unfold located
    rw [lowerPlace_itself _ direct]
    rfl

end Expression

end SmallC
