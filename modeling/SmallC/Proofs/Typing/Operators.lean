import Mathlib.Tactic.ByContra
import Mathlib.Tactic.SplitIfs
import SmallC.Proofs.Typing.Conversions

/-! Checks that find no problem build typed nodes from typed operands. -/

namespace SmallC

variable {symbols : SymbolTable}

/-- A unary check is sound when its rule is. -/
theorem checkUnary_typed {op : UnaryOp} {sign : String} {rule : Ty → Option Ty}
    (sound : ∀ type result, type.promote = type → rule type = some result → op.Types type result)
    {operand : Expression} (typed : operand.Typed symbols)
    (fine : (checkUnary op sign rule operand).problem? = none) :
    (checkUnary op sign rule operand).node.Typed symbols := by
  -- A typed operand is no error, so the rule has been asked and has answered.
  simp only [checkUnary, typed.promote.isError, Bool.false_eq_true, if_false] at fine ⊢
  split
  · rename_i result ruled
    exact .unary typed.promote (sound _ _ (by simp) ruled)
  · rename_i refused
    rw [refused] at fine
    contradiction

/-- A negation that is accepted is typed. -/
theorem checkNot_typed {operand : Expression} (typed : operand.Typed symbols)
    (fine : (checkNot operand).problem? = none) : (checkNot operand).node.Typed symbols := by
  -- The rule asks for a type that can be tested.
  refine checkUnary_typed ?_ typed fine
  intro type result promoted ruled
  simp only [Option.ite_none_right_eq_some, Option.some.injEq] at ruled
  obtain ⟨predicate, rfl⟩ := ruled
  exact .not (Ty.testable_of_isPredicate promoted predicate)

/-- An opposite that is accepted is typed. -/
theorem checkNegate_typed {operand : Expression} (typed : operand.Typed symbols)
    (fine : (checkNegate operand).problem? = none) :
    (checkNegate operand).node.Typed symbols := by
  refine checkUnary_typed ?_ typed fine
  intro type result promoted ruled
  simp only [Option.ite_none_right_eq_some, Option.some.injEq] at ruled
  obtain ⟨numeric, rfl⟩ := ruled
  exact .negate (Ty.arithmetic_of_isNumeric promoted numeric)

/-- A pointer that may be followed leads to typed storage. -/
theorem checkDereference_typed {operand : Expression} (typed : operand.Typed symbols)
    (fine : (checkDereference operand).problem? = none) :
    (checkDereference operand).node.Typed symbols := by
  refine checkUnary_typed ?_ typed fine
  intro type result promoted ruled
  simp only [Option.ite_none_right_eq_some, Option.some.injEq] at ruled
  obtain ⟨pointer, rfl⟩ := ruled
  obtain ⟨specifier, indirection, rfl⟩ := Ty.pointer_of_isPointer promoted pointer
  exact .dereference specifier indirection

/-- A typed operand that is accepted as storage is storage. -/
theorem storage_of_lvalueProblem {operand : Expression} (typed : operand.Typed symbols)
    (fine : lvalueProblem? operand = none) : operand.isLvalue = true := by
  by_contra value
  simp [lvalueProblem?, typed.isError, value] at fine

/-- An address that is accepted is typed. -/
theorem checkAddress_typed {operand : Expression} (typed : operand.Typed symbols)
    (fine : (checkAddress operand).problem? = none) :
    (checkAddress operand).node.Typed symbols := by
  -- Without a problem the operand is storage, and so its type is scalar.
  have storage := storage_of_lvalueProblem typed fine
  obtain ⟨specifier, indirection, scalar⟩ := typed.scalar_of_lvalue storage
  have built : (checkAddress operand).node =
      .unary .address operand (.scalar specifier (indirection + 1)) := by
    simp [checkAddress, storage, scalar, Ty.addressOf]
  rw [built]
  exact .address typed storage scalar

/-- A step that is accepted is typed. -/
theorem checkStep_typed (op : StepOp) {operand : Expression} (typed : operand.Typed symbols)
    (fine : (checkStep op operand).problem? = none) :
    (checkStep op operand).node.Typed symbols := by
  have storage := storage_of_lvalueProblem typed fine
  obtain ⟨specifier, indirection, scalar⟩ := typed.scalar_of_lvalue storage
  -- The scale of the check is the stride of the type.
  have built : (checkStep op operand).node =
      .step op operand.type.stride operand operand.type := by
    cases indirection <;>
      simp [checkStep, storage, scalar, Ty.isError, Ty.isPointer, Ty.stride, Ty.pointee]
  rw [built]
  exact .step op typed storage

/-- The size of a type is typed. -/
theorem sizeofType_typed (type : Ty) : (sizeofType type).Typed symbols :=
  .integer _

/-- An operand with a node around it where a conversion remains is typed. -/
theorem retyped_typed {target : Ty} {operand : Expression} (typed : operand.Typed symbols)
    (converts : operand.type ≠ target → operand.type.Converts target) :
    (if operand.type = target then operand
      else .unary .cast operand target : Expression).Typed symbols := by
  split
  · exact typed
  · rename_i differ
    exact .unary typed (.cast (converts differ))

/-- A cast that is accepted is typed. -/
theorem checkCast_typed {specifier : Specifier} {indirection : Nat} {operand : Expression}
    (typed : operand.Typed symbols)
    (fine : (checkCast (.scalar specifier indirection) operand).problem? = none) :
    (checkCast (.scalar specifier indirection) operand).node.Typed symbols := by
  simp only [checkCast, typed.isError, Bool.false_eq_true, if_false] at fine ⊢
  by_cases numbers : ((Ty.scalar specifier indirection).isNumeric && operand.type.isNumeric) = true
  · -- Conversion between numbers reaches the target by itself.
    simp only [if_pos numbers]
    simp only [Bool.and_eq_true] at numbers
    refine retyped_typed (typed.convert _) ?_
    intro differ
    exact absurd (Expression.type_convert_of_numeric numbers.1 numbers.2) differ
  simp only [if_neg numbers] at fine ⊢
  by_cases toPointer : ((Ty.scalar specifier indirection).isPointer &&
      (operand.type.isPointer || operand.type.isInteger)) = true
  · -- A pointer or a word becomes a pointer.
    simp only [if_pos toPointer]
    simp only [Bool.and_eq_true, Bool.or_eq_true] at toPointer
    obtain ⟨target, source⟩ := toPointer
    refine retyped_typed typed.promote fun _ => ?_
    rw [Expression.type_promote]
    cases indirection with
    | zero => simp [Ty.isPointer] at target
    | succ height =>
      rcases source with pointer | word
      · obtain ⟨kind, depth, decayed⟩ := Ty.pointer_of_promote pointer
        rw [decayed]
        exact .pointers depth height
      · rw [Ty.eq_int_of_isInteger word]
        exact .toPointer height
  simp only [if_neg toPointer] at fine ⊢
  by_cases toWord : (operand.type.isPointer && (Ty.scalar specifier indirection).isInteger) = true
  · -- A pointer becomes a word.
    simp only [if_pos toWord]
    simp only [Bool.and_eq_true] at toWord
    obtain ⟨pointer, target⟩ := toWord
    refine retyped_typed typed.promote fun _ => ?_
    obtain ⟨kind, depth, decayed⟩ := Ty.pointer_of_promote pointer
    rw [Expression.type_promote, decayed, Ty.eq_int_of_isInteger target]
    exact .fromPointer depth
  · rw [if_neg toWord] at fine
    -- No branch is left that accepts the cast.
    contradiction

/-- A binary check is sound when its rule is, for operands that have been converted. -/
theorem judge_typed {plain : BinaryOp} {sign : String} {rule : Ty → Ty → Option (BinaryOp × Ty)}
    {left right : Expression}
    (sound : ∀ op type, rule left.type right.type = some (op, type) →
      op.Types left.type right.type type)
    (first : left.Typed symbols) (second : right.Typed symbols)
    (fine : (judge plain sign rule left right).problem? = none) :
    (judge plain sign rule left right).node.Typed symbols := by
  -- No operand is an error, so the rule decides, and it refuses only with a problem.
  simp only [judge, first.isError, second.isError, Bool.or_self, Bool.false_eq_true, if_false]
    at fine ⊢
  split
  · rename_i op type ruled
    exact .binary first second (sound op type ruled)
  · rename_i refused
    rw [refused] at fine
    contradiction

/-- A check on operands extended toward each other is sound when its rule is. -/
theorem judgeExtended_typed {plain : BinaryOp} {sign : String}
    {rule : Ty → Ty → Option (BinaryOp × Ty)}
    (sound : ∀ left right, Expression.Met left right → ∀ op type,
      rule left right = some (op, type) → op.Types left right type)
    {left right : Expression} (first : left.Typed symbols) (second : right.Typed symbols)
    (fine : (judgeExtended plain sign rule left right).problem? = none) :
    (judgeExtended plain sign rule left right).node.Typed symbols :=
  judge_typed (sound _ _ (Expression.met_extend left right)) (first.extend _) (second.extend _) fine

/-- A check on promoted operands is sound when its rule is. -/
theorem judgePromoted_typed {plain : BinaryOp} {sign : String}
    {rule : Ty → Ty → Option (BinaryOp × Ty)}
    (sound : ∀ left right : Ty, left.promote = left → right.promote = right → ∀ op type,
      rule left right = some (op, type) → op.Types left right type)
    {left right : Expression} (first : left.Typed symbols) (second : right.Typed symbols)
    (fine : (judgePromoted plain sign rule left right).problem? = none) :
    (judgePromoted plain sign rule left right).node.Typed symbols :=
  judge_typed (sound _ _ (by simp) (by simp)) first.promote second.promote fine

/-- The rules of binary operators build typed nodes from typed operands. -/
def SoundRule (rule : Expression → Expression → Verdict Expression) : Prop :=
  ∀ (symbols : SymbolTable) (left right : Expression), left.Typed symbols → right.Typed symbols →
    (rule left right).problem? = none → (rule left right).node.Typed symbols

/-- A product that is accepted is typed. -/
theorem checkMultiply_sound : SoundRule checkMultiply := by
  -- Both operands meet in one numeric type.
  intro symbols left right
  refine judgeExtended_typed ?_
  intro first second met op type ruled
  simp only [Option.ite_none_right_eq_some, Option.some.injEq, Prod.mk.injEq, Bool.and_eq_true]
    at ruled
  obtain ⟨⟨l, r⟩, rfl, rfl⟩ := ruled
  rw [← met.same l r]
  exact .multiply (Ty.arithmetic_of_isNumeric met.first l)

/-- A quotient that is accepted is typed. -/
theorem checkDivide_sound : SoundRule checkDivide := by
  intro symbols left right
  refine judgeExtended_typed ?_
  intro first second met op type ruled
  simp only [Option.ite_none_right_eq_some, Option.some.injEq, Prod.mk.injEq, Bool.and_eq_true]
    at ruled
  obtain ⟨⟨l, r⟩, rfl, rfl⟩ := ruled
  rw [← met.same l r]
  exact .divide (Ty.arithmetic_of_isNumeric met.first l)

/-- A remainder that is accepted is typed. -/
theorem checkRemainder_sound : SoundRule checkRemainder := by
  intro symbols left right
  refine judgePromoted_typed ?_
  intro first second _ _ op type ruled
  simp only [Option.ite_none_right_eq_some, Option.some.injEq, Prod.mk.injEq, Bool.and_eq_true]
    at ruled
  obtain ⟨⟨l, r⟩, rfl, rfl⟩ := ruled
  rw [Ty.eq_int_of_isInteger l, Ty.eq_int_of_isInteger r]
  exact .remainder

/-- A sum that is accepted is typed. -/
theorem checkAdd_sound : SoundRule checkAdd := by
  intro symbols left right
  refine judgeExtended_typed ?_
  intro first second met op type ruled
  -- Two numbers, or a pointer on one side and a word on the other.
  split_ifs at ruled with numbers pointerLeft pointerRight
  · simp only [Option.some.injEq, Prod.mk.injEq] at ruled
    obtain ⟨rfl, rfl⟩ := ruled
    simp only [Bool.and_eq_true] at numbers
    rw [← met.same numbers.1 numbers.2]
    exact .add (Ty.arithmetic_of_isNumeric met.first numbers.1)
  · simp only [Option.some.injEq, Prod.mk.injEq] at ruled
    obtain ⟨rfl, rfl⟩ := ruled
    simp only [Bool.and_eq_true] at pointerLeft
    obtain ⟨specifier, indirection, rfl⟩ := Ty.pointer_of_isPointer met.first pointerLeft.1
    rw [Ty.eq_int_of_isInteger pointerLeft.2]
    exact .addRight specifier indirection
  · simp only [Option.some.injEq, Prod.mk.injEq] at ruled
    obtain ⟨rfl, rfl⟩ := ruled
    simp only [Bool.and_eq_true] at pointerRight
    obtain ⟨specifier, indirection, rfl⟩ := Ty.pointer_of_isPointer met.second pointerRight.2
    rw [Ty.eq_int_of_isInteger pointerRight.1]
    exact .addLeft specifier indirection

/-- A difference that is accepted is typed. -/
theorem checkSubtract_sound : SoundRule checkSubtract := by
  intro symbols left right
  refine judgeExtended_typed ?_
  intro first second met op type ruled
  -- Two numbers, two equal pointers, or a pointer and a word to its right.
  split_ifs at ruled with numbers pointers pointerLeft
  · simp only [Option.some.injEq, Prod.mk.injEq] at ruled
    obtain ⟨rfl, rfl⟩ := ruled
    simp only [Bool.and_eq_true] at numbers
    rw [← met.same numbers.1 numbers.2]
    exact .subtract (Ty.arithmetic_of_isNumeric met.first numbers.1)
  · simp only [Option.some.injEq, Prod.mk.injEq] at ruled
    obtain ⟨rfl, rfl⟩ := ruled
    simp only [Bool.and_eq_true, decide_eq_true_eq] at pointers
    obtain ⟨pointer, rfl⟩ := pointers
    obtain ⟨specifier, indirection, rfl⟩ := Ty.pointer_of_isPointer met.first pointer
    exact .difference specifier indirection
  · simp only [Option.some.injEq, Prod.mk.injEq] at ruled
    obtain ⟨rfl, rfl⟩ := ruled
    simp only [Bool.and_eq_true] at pointerLeft
    obtain ⟨specifier, indirection, rfl⟩ := Ty.pointer_of_isPointer met.first pointerLeft.1
    rw [Ty.eq_int_of_isInteger pointerLeft.2]
    exact .subtractRight specifier indirection

/-- A comparison that is accepted is typed. -/
theorem checkCompare_sound (relation : Comparison) : SoundRule (checkCompare relation) := by
  -- Operands of compatible types meet in one promoted type.
  intro symbols left right
  refine judgeExtended_typed ?_
  intro first second met op type ruled
  simp only [Option.ite_none_right_eq_some, Option.some.injEq, Prod.mk.injEq, Ty.compatible,
    beq_iff_eq, met.first, met.second] at ruled
  obtain ⟨same, rfl, rfl⟩ := ruled
  rw [← same]
  exact .compare relation met.first

/-- A conjunction that is accepted is typed. -/
theorem checkAnd_sound : SoundRule checkAnd := by
  intro symbols left right
  refine judgePromoted_typed ?_
  intro first second promotedLeft promotedRight op type ruled
  simp only [Option.ite_none_right_eq_some, Option.some.injEq, Prod.mk.injEq, Bool.and_eq_true]
    at ruled
  obtain ⟨⟨l, r⟩, rfl, rfl⟩ := ruled
  exact .logicalAnd (Ty.testable_of_isPredicate promotedLeft l)
    (Ty.testable_of_isPredicate promotedRight r)

/-- A disjunction that is accepted is typed. -/
theorem checkOr_sound : SoundRule checkOr := by
  intro symbols left right
  refine judgePromoted_typed ?_
  intro first second promotedLeft promotedRight op type ruled
  simp only [Option.ite_none_right_eq_some, Option.some.injEq, Prod.mk.injEq, Bool.and_eq_true]
    at ruled
  obtain ⟨⟨l, r⟩, rfl, rfl⟩ := ruled
  exact .logicalOr (Ty.testable_of_isPredicate promotedLeft l)
    (Ty.testable_of_isPredicate promotedRight r)

/-- A subscript that is accepted is typed. -/
theorem checkSubscript_sound : SoundRule checkSubscript := by
  intro symbols left right first second fine
  simp only [checkSubscript, first.promote.isError, second.promote.isError, Bool.or_self,
    Bool.false_eq_true, if_false] at fine ⊢
  by_cases fit : (left.promote.type.isPointer && right.promote.type.isInteger) = true
  · simp only [if_pos fit]
    simp only [Bool.and_eq_true] at fit
    obtain ⟨specifier, indirection, pointer⟩ := Ty.pointer_of_isPointer (by simp) fit.1
    -- The pointer moved by the index is a pointer of the same type.
    have moved : (BinaryOp.add 0 left.promote.type.pointee.size).Types left.promote.type
        right.promote.type left.promote.type := by
      rw [pointer, Ty.eq_int_of_isInteger fit.2]
      exact .addRight specifier indirection
    refine .unary (.binary first.promote second.promote moved) ?_
    show UnaryOp.Types .dereference left.promote.type left.promote.type.pointee
    rw [pointer]
    exact .dereference specifier indirection
  · rw [if_neg fit] at fine
    contradiction

/-- A call that is accepted is typed. -/
theorem checkCall_typed {callee : SymbolId} {arguments : List Expression}
    (typed : ∀ argument ∈ arguments, argument.Typed symbols)
    (proper : symbols.typeOf callee ≠ .error)
    (fine : (checkCall callee (symbols.typeOf callee) arguments).problem? = none) :
    (checkCall callee (symbols.typeOf callee) arguments).node.Typed symbols := by
  -- Promoted arguments are typed, and they fit because no problem is reported.
  have promoted : ∀ argument ∈ arguments.map Expression.promote, argument.Typed symbols := by
    intro argument member
    obtain ⟨source, present, rfl⟩ := List.mem_map.mp member
    exact (typed source present).promote
  have settled : ∀ argument ∈ arguments.map Expression.promote,
      argument.type.promote = argument.type := by
    intro argument member
    obtain ⟨source, -, rfl⟩ := List.mem_map.mp member
    simp
  have errorless : ¬ (arguments.map Expression.promote).any (·.type.isError) = true := by
    intro failed
    obtain ⟨argument, member, failed⟩ := List.any_eq_true.mp failed
    rw [(promoted argument member).isError] at failed
    contradiction
  cases declared : symbols.typeOf callee with
  | error => exact absurd declared proper
  | function specifier indirection parameters variadic =>
    simp only [declared, checkCall, if_neg errorless] at fine ⊢
    by_cases fit : argumentsFit parameters variadic (arguments.map Expression.promote) = true
    · rw [if_pos fit]
      exact .call callee declared promoted settled fit
    · rw [if_neg fit] at fine
      contradiction
  | _ =>
    rw [declared] at fine
    contradiction

/-- A condition that is accepted is typed and testable. -/
theorem checkTest_typed {operand : Expression} (typed : operand.Typed symbols)
    (fine : (checkTest operand).problem? = none) :
    (checkTest operand).node.Typed symbols ∧ (checkTest operand).node.type.Testable := by
  refine ⟨typed.promote, ?_⟩
  have predicate : operand.promote.type.isPredicate = true := by
    by_contra failed
    simp only [checkTest, typed.promote.isError, Bool.false_or, if_neg failed] at fine
    contradiction
  show operand.promote.type.Testable
  exact Ty.testable_of_isPredicate (by simp) predicate

/-- An assignment that is accepted is typed. -/
theorem checkAssign_typed {returned : Ty} {looping : Bool} {left right : Expression}
    (place : left.Typed symbols) (value : right.Typed symbols)
    (fine : (checkAssign left right).problem? = none) :
    (checkAssign left right).node.Typed symbols returned looping := by
  have converted := value.convert left.type
  simp only [checkAssign, place.isError, converted.isError, Bool.or_self, Bool.false_eq_true,
    if_false] at fine
  by_cases storage : left.isLvalue = true
  · -- Storage is scalar, so a compatible value has been converted to its very type.
    obtain ⟨specifier, indirection, scalar⟩ := place.scalar_of_lvalue storage
    have fit : left.type.compatible (right.convert left.type).type = true := by
      by_contra unfit
      simp [storage, unfit] at fine
    refine .assign place storage converted ?_
    rw [scalar] at fit ⊢
    exact Expression.type_convert_of_compatible fit
  · simp [storage] at fine

/-- A returned value that is accepted is typed. -/
theorem checkReturn_typed {returned : Ty} {looping : Bool} {operand : Expression}
    (typed : operand.Typed symbols) (fine : (checkReturn returned operand).problem? = none) :
    (checkReturn returned operand).node.Typed symbols returned looping := by
  -- A value that does not fit would have been reported.
  refine .returnValue typed.promote ?_
  have fit : operand.promote.type.compatible returned = true := by
    by_contra unfit
    simp only [checkReturn, typed.promote.isError, Bool.false_or, if_neg unfit] at fine
    contradiction
  simpa [Ty.compatible] using fit

end SmallC
