import Mathlib.Tactic.SplitIfs
import SmallC.Check.Checker
import SmallC.Proofs.Derivations.Phrases
import SmallC.Proofs.Typing.Conversions

/-! Verdicts: a check of an expression is silent on what has been reported, and has one report for
every node that it makes an error. -/

namespace SmallC

namespace Ty

/-- Promotion neither makes nor mends an error. -/
@[simp] theorem isError_promote (type : Ty) : type.promote.isError = type.isError := by
  cases type with
  | scalar specifier indirection => cases specifier <;> cases indirection <;> rfl
  | _ => rfl

/-- The error type is the only one that has been reported. -/
theorem isError_iff {type : Ty} : type.isError = true ↔ type = .error := by
  cases type <;> simp [isError]

theorem isError_of_isNumeric {type : Ty} (numeric : type.isNumeric = true) :
    type.isError = false := by
  obtain ⟨specifier, rfl⟩ := scalar_of_isNumeric numeric
  rfl

theorem isError_of_isPointer {type : Ty} (pointer : type.isPointer = true) :
    type.isError = false := by
  cases type with
  | error => cases pointer
  | _ => rfl

/-- What a pointer leads to is a scalar, which no one has reported. -/
theorem isError_pointee {type : Ty} (pointer : type.isPointer = true) :
    type.pointee.isError = false := by
  cases type with
  | scalar specifier indirection | array specifier indirection =>
    cases indirection with
    | zero => simp [isPointer] at pointer
    | succ indirection => rfl
  | error | function => cases pointer

/-- Only what has been reported has an address of error type. -/
@[simp] theorem isError_addressOf (type : Ty) : type.addressOf.isError = type.isError := by
  cases type <;> rfl

end Ty

namespace Expression

theorem isError_promote (expression : Expression) :
    expression.promote.type.isError = expression.type.isError := by
  rw [type_promote, Ty.isError_promote]

/-- Extension neither makes nor mends an error. -/
@[simp] theorem isError_extend (expression : Expression) (other : Ty) :
    (expression.extend other).type.isError = expression.type.isError := by
  rw [type_extend]
  split
  · next widens =>
    rcases widens.1 with kind | kind <;> rw [kind] <;> rfl
  · exact Ty.isError_promote _

end Expression

/-- A verdict is fair when it makes an error of what has been reported without another word, and
has a problem for every other node that it makes an error. -/
structure Verdict.Fair (reported : Prop) (verdict : Verdict Expression) : Prop where
  /-- What has been reported makes the node an error. -/
  spreads : reported → verdict.node.type.isError = true
  /-- It is not reported again. -/
  silent : reported → verdict.problem? = none
  /-- Any other node is an error exactly when there is a problem. -/
  heard : ¬ reported → verdict.node.type.isError = verdict.problem?.isSome

namespace Verdict

/-- A check that looks at what has been reported first is fair if it is fair on everything else. -/
theorem fair_ite {reported : Prop} {test : Bool} (tests : test = true ↔ reported)
    {node : Expression} (failed : node.type.isError = true) {other : Verdict Expression}
    (heard : other.node.type.isError = other.problem?.isSome) :
    Fair reported (if test then ⟨node, none⟩ else other) := by
  refine ⟨fun known => ?_, fun known => ?_, fun fresh => ?_⟩
  · rw [if_pos (tests.mpr known)]
    exact failed
  · rw [if_pos (tests.mpr known)]
  · rw [if_neg (mt tests.mp fresh)]
    exact heard

end Verdict

/-! Each of the checks is fair. -/

/-- A check by a rule on one type is fair when the rule has no error for an answer. -/
theorem checkUnary_fair {op : UnaryOp} {sign : String} {rule : Ty → Option Ty}
    (proper : ∀ type result, rule type = some result → result.isError = false)
    (operand : Expression) :
    (checkUnary op sign rule operand).Fair (operand.type = .error) := by
  refine Verdict.fair_ite ?_ rfl ?_
  · rw [Expression.isError_promote, Ty.isError_iff]
  · split
    · next result ruled => exact proper _ _ ruled
    · rfl

theorem checkNot_fair (operand : Expression) : (checkNot operand).Fair (operand.type = .error) := by
  apply checkUnary_fair
  intro type result ruled
  simp only [Option.ite_none_right_eq_some, Option.some.injEq] at ruled
  rw [← ruled.2]
  rfl

theorem checkNegate_fair (operand : Expression) :
    (checkNegate operand).Fair (operand.type = .error) := by
  apply checkUnary_fair
  intro type result ruled
  simp only [Option.ite_none_right_eq_some, Option.some.injEq] at ruled
  obtain ⟨numeric, rfl⟩ := ruled
  exact Ty.isError_of_isNumeric numeric

theorem checkDereference_fair (operand : Expression) :
    (checkDereference operand).Fair (operand.type = .error) := by
  apply checkUnary_fair
  intro type result ruled
  simp only [Option.ite_none_right_eq_some, Option.some.injEq] at ruled
  obtain ⟨pointer, rfl⟩ := ruled
  exact Ty.isError_pointee pointer

/-- A check that needs storage is fair when it fails on everything else. -/
theorem fair_storage {operand node : Expression}
    (fails : node.type.isError = (operand.type.isError || !operand.isLvalue)) :
    Verdict.Fair (operand.type = .error) ⟨node, lvalueProblem? operand⟩ := by
  refine ⟨fun known => ?_, fun known => ?_, fun fresh => ?_⟩
  · rw [fails, known]
    rfl
  · rw [lvalueProblem?, known]
    rfl
  · have fresh : operand.type.isError = false := Bool.eq_false_iff.mpr (mt Ty.isError_iff.mp fresh)
    rw [fails, fresh, lvalueProblem?, fresh]
    cases operand.isLvalue <;> rfl

theorem checkAddress_fair (operand : Expression) :
    (checkAddress operand).Fair (operand.type = .error) := by
  apply fair_storage
  show (if operand.isLvalue then operand.type.addressOf else Ty.error).isError = _
  split
  · next storage => simp [storage]
  · next value => simp [value, Ty.isError]

theorem checkStep_fair (op : StepOp) (operand : Expression) :
    (checkStep op operand).Fair (operand.type = .error) := by
  apply fair_storage
  split
  · next failed =>
    rw [failed]
    rfl
  · next stepped =>
    show operand.type.isError = _
    rw [Bool.not_eq_true, Bool.or_eq_false_iff] at stepped
    rw [stepped.1, stepped.2]
    rfl

/-- A cast adds its node only where the operand has another type, so it ends at its target. -/
theorem type_retyped (target : Ty) (operand : Expression) :
    (if operand.type = target then operand else .unary .cast operand target : Expression).type =
      target := by
  split
  · next same => exact same
  · rfl

theorem checkCast_fair (target : Ty) (operand : Expression) :
    (checkCast target operand).Fair (operand.type = .error) := by
  unfold checkCast
  dsimp only
  split
  · next known =>
    -- What has been reported is handed back as it is.
    exact ⟨fun _ => known, fun _ => rfl, fun fresh => absurd (Ty.isError_iff.mp known) fresh⟩
  · next fresh =>
    have fresh : operand.type ≠ .error := mt Ty.isError_iff.mpr fresh
    refine ⟨fun same => absurd same fresh, fun same => absurd same fresh, fun _ => ?_⟩
    split
    · next numbers =>
      rw [Bool.and_eq_true] at numbers
      rw [type_retyped]
      exact Ty.isError_of_isNumeric numbers.1
    · split
      · next pointers =>
        rw [Bool.and_eq_true] at pointers
        rw [type_retyped]
        exact Ty.isError_of_isPointer pointers.1
      · split
        · next word =>
          rw [Bool.and_eq_true] at word
          rw [type_retyped, Ty.eq_int_of_isInteger word.2]
          rfl
        · rfl

/-- A check by a rule on two types is fair when the rule has no error for an answer. -/
theorem judge_fair {plain : BinaryOp} {sign : String} {rule : Ty → Ty → Option (BinaryOp × Ty)}
    (proper : ∀ left right answer, rule left right = some answer → answer.2.isError = false)
    {left right : Expression} {reported : Prop}
    (tests : (left.type.isError || right.type.isError) = true ↔ reported) :
    (judge plain sign rule left right).Fair reported := by
  refine Verdict.fair_ite tests rfl ?_
  split
  · next ruled => exact proper _ _ _ ruled
  · rfl

/-- A check of two operands is fair on whatever has been reported of them. -/
def FairRule (rule : Expression → Expression → Verdict Expression) : Prop :=
  ∀ left right : Expression, (rule left right).Fair (left.type = .error ∨ right.type = .error)

theorem judgeExtended_fair {plain : BinaryOp} {sign : String}
    {rule : Ty → Ty → Option (BinaryOp × Ty)}
    (proper : ∀ left right answer, rule left right = some answer → answer.2.isError = false) :
    FairRule (judgeExtended plain sign rule) := by
  intro left right
  apply judge_fair proper
  simp [Ty.isError_iff]

theorem judgePromoted_fair {plain : BinaryOp} {sign : String}
    {rule : Ty → Ty → Option (BinaryOp × Ty)}
    (proper : ∀ left right answer, rule left right = some answer → answer.2.isError = false) :
    FairRule (judgePromoted plain sign rule) := by
  intro left right
  apply judge_fair proper
  simp [Ty.isError_iff]

theorem checkAdd_fair : FairRule checkAdd := by
  apply judgeExtended_fair
  intro left right answer ruled
  -- The sum has the type of an operand that is a number or a pointer.
  split_ifs at ruled with numbers pointerLeft pointerRight <;> cases ruled
  · rw [Bool.and_eq_true] at numbers
    exact Ty.isError_of_isNumeric numbers.1
  · rw [Bool.and_eq_true] at pointerLeft
    exact Ty.isError_of_isPointer pointerLeft.1
  · rw [Bool.and_eq_true] at pointerRight
    exact Ty.isError_of_isPointer pointerRight.2

theorem checkSubtract_fair : FairRule checkSubtract := by
  apply judgeExtended_fair
  intro left right answer ruled
  split_ifs at ruled with numbers pointers pointerLeft <;> cases ruled
  · rw [Bool.and_eq_true] at numbers
    exact Ty.isError_of_isNumeric numbers.1
  · rfl
  · rw [Bool.and_eq_true] at pointerLeft
    exact Ty.isError_of_isPointer pointerLeft.1

/-- Every operator between two operands is fair. -/
theorem BinarySign.check_fair (sign : BinarySign) : FairRule sign.check := by
  -- Products and quotients are of one numeric type, and all other answers but sums are words.
  have number {op : BinaryOp} (left right : Ty) (answer : BinaryOp × Ty)
      (ruled : (if left.isNumeric && right.isNumeric then some (op, left) else none) =
        some answer) :
      answer.2.isError = false := by
    simp only [Option.ite_none_right_eq_some, Option.some.injEq, Bool.and_eq_true] at ruled
    rw [← ruled.2]
    exact Ty.isError_of_isNumeric ruled.1.1
  have word {op : BinaryOp} (test : Ty → Ty → Bool) (left right : Ty) (answer : BinaryOp × Ty)
      (ruled : (if test left right then some (op, .int) else none) = some answer) :
      answer.2.isError = false := by
    simp only [Option.ite_none_right_eq_some, Option.some.injEq] at ruled
    rw [← ruled.2]
    rfl
  cases sign with
  | or | and =>
    exact judgePromoted_fair (word fun left right => left.isPredicate && right.isPredicate)
  | modulo => exact judgePromoted_fair (word fun left right => left.isInteger && right.isInteger)
  | compare => exact judgeExtended_fair (word Ty.compatible)
  | plus => exact checkAdd_fair
  | minus => exact checkSubtract_fair
  -- Products and quotients have the same rule.
  | _ => exact judgeExtended_fair number

theorem checkSubscript_fair (left right : Expression) :
    (checkSubscript left right).Fair (left.type = .error ∨ right.type = .error) := by
  refine Verdict.fair_ite ?_ rfl ?_
  · simp [Ty.isError_iff]
  · split
    · next fit =>
      rw [Bool.and_eq_true] at fit
      exact Ty.isError_pointee fit.1
    · rfl

/-- Whether a call is about something that has been reported: its callee, or an argument of a
function. -/
def ReportedCall (type : Ty) (arguments : List Expression) : Prop :=
  type = .error ∨ type.isFunction = true ∧ ∃ argument ∈ arguments, argument.type = .error

theorem checkCall_fair (callee : SymbolId) (type : Ty) (arguments : List Expression) :
    (checkCall callee type arguments).Fair (ReportedCall type arguments) := by
  unfold checkCall ReportedCall
  cases type with
  | error => exact ⟨fun _ => rfl, fun _ => rfl, fun fresh => absurd (.inl rfl) fresh⟩
  | function specifier indirection parameters variadic =>
    refine Verdict.fair_ite ?_ rfl ?_
    · simp [Ty.isFunction, Ty.isError_iff]
    · split <;> rfl
  | scalar | array =>
    -- No argument is looked at where there is no function.
    refine ⟨?_, ?_, fun _ => rfl⟩ <;> simp [Ty.isFunction]

/-- A call of one of the checks that make an expression of operands. -/
inductive Check where
  /-- A subscript. -/
  | subscript (array index : Expression)
  /-- An operator before its operand; the size of an operand is a constant whatever the operand. -/
  | unary (sign : UnarySign) (valued : sign ≠ .sizeof) (operand : Expression)
  /-- A step of its operand. -/
  | step (op : StepOp) (operand : Expression)
  /-- An operator between its operands. -/
  | binary (sign : BinarySign) (left right : Expression)
  /-- A call of a symbol. -/
  | call (callee : SymbolId) (arguments : List Expression)

namespace Check

/-- What a check makes of its operands, and the checker that it leaves behind. -/
def perform : Check → Checker → Expression × Checker
  | .subscript array index => Checker.record (checkSubscript array index)
  | .unary sign _ operand => Checker.record (sign.check operand)
  | .step op operand => Checker.record (checkStep op operand)
  | .binary sign left right => Checker.record (sign.check left right)
  | .call callee arguments => Checker.call callee arguments

/-- Whether an operand of a check has been reported; a call also depends on its callee, and does not
look at its arguments unless that is a function. -/
def Contaminated (symbols : SymbolTable) : Check → Prop
  | .subscript left right | .binary _ left right => left.type = .error ∨ right.type = .error
  | .unary _ _ operand | .step _ operand => operand.type = .error
  | .call callee arguments => ReportedCall (symbols.typeOf callee) arguments

end Check

/-- A check answers with an error and at most one report: none on what has been reported, and on
anything else exactly one with every error. -/
structure Checker.Answers (checker : Checker) (reported : Prop) (answer : Expression × Checker) :
    Prop where
  /-- What has been reported becomes an error in silence. -/
  silent : reported → answer.1.type = .error ∧ answer.2.reports = checker.reports
  /-- Anything else becomes an error exactly with one report. -/
  heard : ¬ reported → (answer.1.type = .error ↔
    ∃ problem, answer.2.reports = checker.reports ++ [⟨problem, checker.position⟩])
  /-- What becomes no error is not reported. -/
  fine : answer.1.type ≠ .error → answer.2.reports = checker.reports
  /-- Earlier reports stay as they are, and at most one is added at the place in hand. -/
  once : answer.2.reports = checker.reports ∨
    ∃ problem, answer.2.reports = checker.reports ++ [⟨problem, checker.position⟩]
  /-- Nothing but the reports is changed. -/
  rest : answer.2 = { checker with reports := answer.2.reports }

/-- A fair verdict is answered for by its one report. -/
theorem Verdict.Fair.answers {reported : Prop} {verdict : Verdict Expression}
    (fair : verdict.Fair reported) (checker : Checker) :
    checker.Answers reported (checker.record verdict) := by
  obtain ⟨node, problem?⟩ := verdict
  -- Without a report the reports stay and the node has a proper type; with one it is the only one
  -- added.
  cases problem? with
  | none =>
    have kept : (checker.record ⟨node, none⟩).2.reports = checker.reports := rfl
    refine ⟨fun known => ⟨Ty.isError_iff.mp (fair.spreads known), kept⟩, fun fresh => ?_,
      fun _ => kept, .inl kept, rfl⟩
    have fine : node.type.isError = false := fair.heard fresh
    refine ⟨fun failed => ?_, fun ⟨problem, more⟩ => ?_⟩
    · rw [show node.type = .error from failed] at fine
      cases fine
    · rw [kept] at more
      simp at more
  | some problem =>
    have fresh : ¬ reported := fun known => nomatch fair.silent known
    have failed : node.type = .error := Ty.isError_iff.mp (fair.heard fresh)
    have more : (checker.record ⟨node, some problem⟩).2.reports =
      checker.reports ++ [⟨problem, checker.position⟩] := rfl
    exact ⟨fun known => absurd known fresh, fun _ => ⟨fun _ => ⟨problem, more⟩, fun _ => failed⟩,
      fun fine => absurd failed fine, .inr ⟨problem, more⟩, rfl⟩

/-- Whatever has been declared and reported so far, every check of an expression makes an error of
what has been reported in silence, and has exactly one report for every other error. -/
theorem perform_answers (check : Check) (checker : Checker) :
    checker.Answers (check.Contaminated checker.symbols) (check.perform checker) := by
  cases check with
  | subscript array index => exact (checkSubscript_fair array index).answers checker
  | unary sign valued operand =>
    cases sign with
    | not => exact (checkNot_fair operand).answers checker
    | negate => exact (checkNegate_fair operand).answers checker
    | dereference => exact (checkDereference_fair operand).answers checker
    | address => exact (checkAddress_fair operand).answers checker
    | cast target => exact (checkCast_fair target operand).answers checker
    | sizeof => exact absurd rfl valued
  | step op operand => exact (checkStep_fair op operand).answers checker
  | binary sign left right => exact (sign.check_fair left right).answers checker
  | call callee arguments => exact (checkCall_fair callee _ arguments).answers checker

end SmallC
