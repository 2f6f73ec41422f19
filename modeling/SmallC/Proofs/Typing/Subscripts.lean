import SmallC.Proofs.Typing.Symmetry
import SmallC.Proofs.Typing.Verdicts

/-! Subscripts: where one is accepted, it is the very tree of what the pointer leads to once the index
has been added to it. -/

namespace SmallC

variable {left right : Expression}

/-- A subscript is accepted on a pointer and an index that is a word, and on nothing else. -/
theorem checkSubscript_accepts (left right : Expression) :
    (checkSubscript left right).problem? = none ∧ (checkSubscript left right).node.type ≠ .error ↔
      left.promote.type.isPointer = true ∧ right.promote.type = .int := by
  have word (type : Ty) : type.isInteger = true ↔ type = .int :=
    ⟨Ty.eq_int_of_isInteger, fun same => same ▸ rfl⟩
  unfold checkSubscript
  dsimp only
  split
  · -- What has been reported is no pointer and no word, and becomes an error.
    next known =>
    refine ⟨fun accepted => absurd rfl accepted.2, fun ⟨pointer, index⟩ => ?_⟩
    rw [Ty.isError_of_isPointer pointer, index] at known
    cases known
  · split
    · next fit =>
      rw [Bool.and_eq_true, word] at fit
      have fine := Ty.isError_pointee fit.1
      refine ⟨fun _ => fit, fun _ => ⟨rfl, fun failed => ?_⟩⟩
      rw [show left.promote.type.pointee = .error from failed] at fine
      cases fine
    · next unfit =>
      rw [Bool.and_eq_true, word] at unfit
      exact ⟨fun accepted => (nomatch accepted.1), fun fit => absurd fit unfit⟩

/-- An index moves a pointer by so many elements. -/
def Expression.moved (pointer index : Expression) : Expression :=
  .binary (.add 0 pointer.type.pointee.size) pointer index pointer.type

theorem checkSubscript_of_pointer (pointer : left.promote.type.isPointer = true)
    (index : right.promote.type = .int) :
    checkSubscript left right =
      ⟨.unary .dereference (left.promote.moved right.promote) left.promote.type.pointee, none⟩ := by
  have fine := Ty.isError_of_isPointer pointer
  have word : Ty.int.isInteger = true ∧ Ty.int.isError = false := ⟨rfl, rfl⟩
  simp only [checkSubscript, fine, index, word.2, Bool.or_false, Bool.false_eq_true, if_false,
    pointer, word.1, Bool.and_self, if_true]
  rfl

/-- Neither operand of the sum of a pointer and a word goes to floating point. -/
theorem checkAdd_of_pointer (pointer : left.promote.type.isPointer = true)
    (index : right.promote.type = .int) :
    checkAdd left right = ⟨left.promote.moved right.promote, none⟩ := by
  obtain ⟨specifier, indirection, reached⟩ := Ty.pointer_of_isPointer (by simp) pointer
  -- The right operand is no floating-point number, and the left one is none either.
  have first : left.extend right.type = left.promote := by
    apply Expression.extend_eq_promote
    rintro ⟨-, real⟩
    rw [Expression.type_promote, real] at index
    cases index
  have second : right.extend left.type = right.promote := by
    apply Expression.extend_eq_promote
    rintro ⟨-, real⟩
    rw [Expression.type_promote, real] at reached
    cases reached
  have word : Ty.int.isInteger = true ∧ Ty.int.isError = false := ⟨rfl, rfl⟩
  unfold checkAdd
  rw [judgeExtended_eq, first, second]
  have numeric : left.promote.type.isNumeric = false := by
    rw [reached]
    rfl
  simp only [judge, Ty.isError_of_isPointer pointer, index, word.2, Bool.or_false,
    Bool.false_eq_true, if_false, numeric, Bool.false_and, pointer, word.1, Bool.and_self, if_true]
  rfl

/-- A pointer that has been moved is followed as it is. -/
theorem checkDereference_of_pointer (pointer : left.promote.type.isPointer = true) :
    checkDereference (left.promote.moved right) =
      ⟨.unary .dereference (left.promote.moved right) left.promote.type.pointee, none⟩ := by
  have type : (left.promote.moved right).type = left.promote.type := rfl
  have settled : (left.promote.moved right).promote = left.promote.moved right := by
    apply Expression.promote_eq_self
    rw [type, Expression.type_promote, Ty.promote_promote]
  have fine := Ty.isError_of_isPointer pointer
  simp only [checkDereference, checkUnary, settled, type, fine, pointer, Bool.false_eq_true,
    if_false, if_true]

/-- A subscript that is accepted is what the pointer leads to that the index has moved. -/
theorem checkSubscript_eq (pointer : left.promote.type.isPointer = true)
    (index : right.promote.type = .int) :
    (checkAdd left right).problem? = none ∧
      checkDereference (checkAdd left right).node = checkSubscript left right := by
  rw [checkAdd_of_pointer pointer index, checkSubscript_of_pointer pointer index]
  exact ⟨rfl, checkDereference_of_pointer pointer⟩

end SmallC
