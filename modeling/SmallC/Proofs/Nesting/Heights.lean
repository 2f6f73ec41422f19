import Mathlib.Tactic.SplitIfs
import SmallC.Check.Checker

/-! Heights of checked trees: each check puts at most three nodes above the operands it joins. -/

namespace SmallC

mutual

/-- The nodes on the longest path from the root of an expression to a leaf. -/
def Expression.height : Expression → Nat
  | .integer .. | .real _ | .string _ | .identifier .. => 1
  | .call _ arguments _ => heightOfList arguments + 1
  | .unary _ operand _ | .step _ _ operand _ => operand.height + 1
  | .binary _ left right _ => max left.height right.height + 1

/-- The greatest height among expressions. -/
def Expression.heightOfList : List Expression → Nat
  | [] => 0
  | first :: rest => max first.height (heightOfList rest)

end

mutual

/-- The nodes on the longest path from a statement to a leaf, statements and expressions alike. -/
def Statement.height : Statement → Nat
  | .evaluate value | .returnValue value => value.height + 1
  | .assign left right => max left.height right.height + 1
  | .breakLoop => 1
  | .block _ body => heightOfList body + 1
  | .whileLoop test body | .ifThen test body => max test.height body.height + 1
  | .forLoop init test increment body =>
    max (max init.height test.height) (max increment.height body.height) + 1
  | .ifElse test body otherwise => max test.height (max body.height otherwise.height) + 1

/-- The greatest height among statements. -/
def Statement.heightOfList : List Statement → Nat
  | [] => 0
  | first :: rest => max first.height (heightOfList rest)

end

namespace Expression

theorem heightOfList_le {expressions : List Expression} {bound : Nat}
    (each : ∀ expression ∈ expressions, expression.height ≤ bound) :
    heightOfList expressions ≤ bound := by
  induction expressions with
  | nil => simp [heightOfList]
  | cons first rest ih =>
    have head := each first (by simp)
    have tail := ih fun expression member => each expression (by simp [member])
    simp only [heightOfList]
    omega

/-! Every implicit conversion is one node at most. -/

theorem height_promote (operand : Expression) : operand.promote.height ≤ operand.height + 1 := by
  unfold promote
  split_ifs <;> simp [height]

theorem height_widen (operand : Expression) : operand.widen.height ≤ operand.height + 1 := by
  cases operand <;> simp [widen, height]

theorem height_extend (operand : Expression) (other : Ty) :
    (operand.extend other).height ≤ operand.height + 1 := by
  unfold extend
  split_ifs
  · exact operand.height_widen
  · exact operand.height_promote

theorem height_convert (operand : Expression) (target : Ty) :
    (operand.convert target).height ≤ operand.height + 1 := by
  unfold convert
  split_ifs
  · simp [height]
  · omega
  · exact operand.height_extend target

end Expression

section Operators

variable {left right operand : Expression} {bound : Nat}

theorem height_checkUnary (op : UnaryOp) (sign : String) (rule : Ty → Option Ty)
    (low : operand.height ≤ bound) :
    (checkUnary op sign rule operand).node.height ≤ bound + 2 := by
  have promoted := operand.height_promote
  -- The node is the same whichever way the judgement goes, but for its type.
  unfold checkUnary
  simp only
  split
  · simp only [Expression.height]
    omega
  · split <;> simp only [Expression.height] <;> omega

theorem height_checkAddress (low : operand.height ≤ bound) :
    (checkAddress operand).node.height ≤ bound + 2 := by
  simp only [checkAddress, Expression.height]
  omega

theorem height_checkStep (op : StepOp) (low : operand.height ≤ bound) :
    (checkStep op operand).node.height ≤ bound + 2 := by
  unfold checkStep
  simp only
  split <;> simp only [Expression.height] <;> omega

theorem height_sizeofType (type : Ty) : (sizeofType type).height = 1 := rfl

theorem height_checkCast (target : Ty) (low : operand.height ≤ bound) :
    (checkCast target operand).node.height ≤ bound + 2 := by
  -- A conversion may come before the cast that was written.
  have converted := operand.height_convert target
  have promoted := operand.height_promote
  unfold checkCast
  simp only
  split_ifs <;> simp only [Expression.height] <;> omega

theorem height_judge (plain : BinaryOp) (sign : String)
    (rule : Ty → Ty → Option (BinaryOp × Ty)) (first : left.height ≤ bound)
    (second : right.height ≤ bound) :
    (judge plain sign rule left right).node.height ≤ bound + 1 := by
  unfold judge
  split
  · simp only [Expression.height]
    omega
  · split <;> simp only [Expression.height] <;> omega

theorem height_judgeExtended (plain : BinaryOp) (sign : String)
    (rule : Ty → Ty → Option (BinaryOp × Ty)) (first : left.height ≤ bound)
    (second : right.height ≤ bound) :
    (judgeExtended plain sign rule left right).node.height ≤ bound + 2 := by
  have one : (left.extend right.type).height ≤ bound + 1 := by
    have raised := left.height_extend right.type
    omega
  have other : (right.extend (left.extend right.type).type).height ≤ bound + 1 := by
    have raised := right.height_extend (left.extend right.type).type
    omega
  exact height_judge plain sign rule one other

theorem height_judgePromoted (plain : BinaryOp) (sign : String)
    (rule : Ty → Ty → Option (BinaryOp × Ty)) (first : left.height ≤ bound)
    (second : right.height ≤ bound) :
    (judgePromoted plain sign rule left right).node.height ≤ bound + 2 := by
  have one : left.promote.height ≤ bound + 1 := by
    have raised := left.height_promote
    omega
  have other : right.promote.height ≤ bound + 1 := by
    have raised := right.height_promote
    omega
  exact height_judge plain sign rule one other

/-- A subscript becomes a pointer moved and followed, each operand perhaps promoted. -/
theorem height_checkSubscript (first : left.height ≤ bound) (second : right.height ≤ bound) :
    (checkSubscript left right).node.height ≤ bound + 3 := by
  have one := left.height_promote
  have other := right.height_promote
  unfold checkSubscript
  simp only
  split_ifs <;> simp only [Expression.height] <;> omega

theorem height_checkCall (callee : SymbolId) (type : Ty) {arguments : List Expression}
    (each : ∀ argument ∈ arguments, argument.height ≤ bound) :
    (checkCall callee type arguments).node.height ≤ bound + 2 := by
  have promoted : Expression.heightOfList (arguments.map Expression.promote) ≤ bound + 1 := by
    refine Expression.heightOfList_le ?_
    intro argument member
    obtain ⟨plain, inside, rfl⟩ := List.mem_map.mp member
    have low := each plain inside
    have raised := plain.height_promote
    omega
  -- Every verdict is on one call of the promoted arguments.
  unfold checkCall
  simp only
  split
  · simp only [Expression.height]
    omega
  · split_ifs <;> simp only [Expression.height] <;> omega
  · simp only [Expression.height]
    omega

theorem height_checkTest (low : operand.height ≤ bound) :
    (checkTest operand).node.height ≤ bound + 1 := by
  have promoted := operand.height_promote
  simp only [checkTest]
  omega

theorem height_checkAssign (first : left.height ≤ bound) (second : right.height ≤ bound) :
    (checkAssign left right).node.height ≤ bound + 2 := by
  have converted := right.height_convert left.type
  simp only [checkAssign, Statement.height]
  omega

theorem height_checkReturn (returned : Ty) (low : operand.height ≤ bound) :
    (checkReturn returned operand).node.height ≤ bound + 2 := by
  have promoted := operand.height_promote
  simp only [checkReturn, Statement.height]
  omega

end Operators

theorem Statement.heightOfList_le {statements : List Statement} {bound : Nat}
    (each : ∀ statement ∈ statements, statement.height ≤ bound) :
    heightOfList statements ≤ bound := by
  induction statements with
  | nil => simp [heightOfList]
  | cons first rest ih =>
    have head := each first (by simp)
    have tail := ih fun statement member => each statement (by simp [member])
    simp only [heightOfList]
    omega

end SmallC
