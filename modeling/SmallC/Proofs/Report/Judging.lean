import SmallC.Proofs.Derivations.Phrases

/-! Judging: what a check finds wrong with checked operands is a matter of their types. -/

namespace SmallC

/-- A problem that checked operands may have. -/
inductive Problem.Judged : Problem → Prop where
  /-- A condition cannot be tested for zero. -/
  | invalidTest : Judged .invalidTest
  /-- A function returns a value of another type. -/
  | invalidReturn : Judged .invalidReturn
  /-- Storage is needed where there is only a value. -/
  | lvalueRequired : Judged .lvalueRequired
  /-- A binary operator does not apply. -/
  | invalidOperands (sign : String) : Judged (.invalidOperands sign)
  /-- A unary operator does not apply. -/
  | invalidOperand (sign : String) : Judged (.invalidOperand sign)
  /-- The size of a function is asked for. -/
  | invalidSizeof : Judged .invalidSizeof
  /-- A value cannot be converted. -/
  | invalidCast : Judged .invalidCast
  /-- The callee is no function. -/
  | notAFunction : Judged .notAFunction
  /-- The arguments do not fit. -/
  | invalidArguments : Judged .invalidArguments

/-- Whatever a verdict finds, checked operands may have it. -/
def Verdict.Judged {α : Type} (verdict : Verdict α) : Prop :=
  ∀ problem ∈ verdict.problem?, problem.Judged

theorem judged_none {α : Type} {node : α} : Verdict.Judged ⟨node, none⟩ :=
  nofun

theorem judged_some {α : Type} {node : α} {problem : Problem} (judged : problem.Judged) :
    Verdict.Judged ⟨node, some problem⟩ := by
  rintro _ ⟨⟩
  exact judged

/-- A check that finds one problem at most finds one that checked operands may have. -/
theorem judged_ite {α : Type} {test : Prop} [Decidable test] {node : α} {problem : Problem}
    (judged : problem.Judged) : Verdict.Judged ⟨node, if test then none else some problem⟩ := by
  split
  · exact judged_none
  · exact judged_some judged

theorem judged_checkUnary (op : UnaryOp) (sign : String) (rule : Ty → Option Ty)
    (operand : Expression) : (checkUnary op sign rule operand).Judged := by
  unfold checkUnary
  dsimp only
  split
  · exact judged_none
  · split
    · exact judged_none
    · exact judged_some (.invalidOperand sign)

theorem judged_checkCast (target : Ty) (operand : Expression) : (checkCast target operand).Judged := by
  -- Only where nothing fits is there a problem.
  unfold checkCast
  dsimp only
  split
  · exact judged_none
  · split
    · exact judged_none
    · split
      · exact judged_none
      · split
        · exact judged_none
        · exact judged_some .invalidCast

/-- So does an operator before its operand. -/
theorem UnarySign.judged (sign : UnarySign) (operand : Expression) :
    (sign.check operand).Judged := by
  cases sign with
  | not | negate | dereference => exact judged_checkUnary _ _ _ _
  | address => exact judged_ite .lvalueRequired
  | sizeof =>
    show (checkSizeof operand).Judged
    unfold checkSizeof
    split
    · exact judged_some .invalidSizeof
    · exact judged_none
  | cast target => exact judged_checkCast target operand

theorem judged_judge (plain : BinaryOp) (sign : String) (rule : Ty → Ty → Option (BinaryOp × Ty))
    (left right : Expression) : (judge plain sign rule left right).Judged := by
  unfold judge
  split
  · exact judged_none
  · split
    · exact judged_none
    · exact judged_some (.invalidOperands sign)

/-- So does an operator between its operands. -/
theorem BinarySign.judged (sign : BinarySign) (left right : Expression) :
    (sign.check left right).Judged := by
  cases sign <;> exact judged_judge _ _ _ _ _

theorem judged_checkSubscript (left right : Expression) : (checkSubscript left right).Judged := by
  unfold checkSubscript
  dsimp only
  split
  · exact judged_none
  · split
    · exact judged_none
    · exact judged_some (.invalidOperands "[]")

theorem judged_checkCall (callee : SymbolId) (type : Ty) (arguments : List Expression) :
    (checkCall callee type arguments).Judged := by
  unfold checkCall
  dsimp only
  split
  · exact judged_none
  · split
    · exact judged_none
    · split
      · exact judged_none
      · exact judged_some .invalidArguments
  · exact judged_some .notAFunction

theorem judged_checkStep (op : StepOp) (operand : Expression) : (checkStep op operand).Judged :=
  judged_ite .lvalueRequired

theorem judged_checkTest (operand : Expression) : (checkTest operand).Judged :=
  judged_ite .invalidTest

theorem judged_checkAssign (left right : Expression) : (checkAssign left right).Judged := by
  unfold checkAssign
  dsimp only
  split
  · exact judged_none
  · split
    · exact judged_some .lvalueRequired
    · split
      · exact judged_none
      · exact judged_some (.invalidOperands "=")

theorem judged_checkReturn (returned : Ty) (operand : Expression) :
    (checkReturn returned operand).Judged :=
  judged_ite .invalidReturn

end SmallC
