import SmallC.Proofs.Typing.Verdicts

/-! Casts of arrays: which ones are judged as the pointers that the arrays decay to. -/

namespace SmallC

/-- Whether the address of storage may be cast to the type: to another pointer or to a word. -/
def Ty.takesAddress (target : Ty) : Prop :=
  target.isPointer = true ∨ target.isInteger = true

/-! Operands with and without a star. -/

/-- No number has a star. -/
theorem Ty.isNumeric_of_isPointer {type : Ty} (pointer : type.isPointer = true) :
    type.isNumeric = false := by
  cases numeric : type.isNumeric with
  | false => rfl
  | true =>
    obtain ⟨specifier, rfl⟩ := scalar_of_isNumeric numeric
    cases pointer

/-- Where the source counts as a pointer, the target alone decides; an accepted cast ends there. -/
theorem checkCast_pointer {target : Ty} {operand : Expression}
    (pointer : operand.type.isPointer = true) :
    (target.takesAddress → (checkCast target operand).problem? = none ∧
      (checkCast target operand).node.type = target) ∧
    (¬ target.takesAddress →
      checkCast target operand = ⟨.unary .cast operand .error, some .invalidCast⟩) := by
  have fine : operand.type.isError = false := Ty.isError_of_isPointer pointer
  have starred : operand.type.isNumeric = false := Ty.isNumeric_of_isPointer pointer
  -- A pointer is no number and has not been reported, so two branches of the check are left.
  constructor
  · intro fits
    have near : checkCast target operand = ⟨if operand.promote.type = target then operand.promote
        else .unary .cast operand.promote target, none⟩ := by
      rcases fits with toPointer | toWord
      · simp [checkCast, fine, starred, pointer, toPointer]
      · simp [checkCast, fine, starred, pointer, toWord]
    rw [near]
    exact ⟨rfl, type_retyped target operand.promote⟩
  · intro unfit
    obtain ⟨toPointer, toWord⟩ := not_or.mp unfit
    simp [checkCast, fine, starred, pointer, toPointer, toWord]

/-- What is neither a number nor a pointer nor reported cannot be cast. -/
theorem checkCast_unfit (target : Ty) {operand : Expression} (fresh : operand.type.isError = false)
    (number : operand.type.isNumeric = false) (word : operand.type.isInteger = false)
    (pointer : operand.type.isPointer = false) :
    checkCast target operand = ⟨.unary .cast operand .error, some .invalidCast⟩ := by
  simp [checkCast, fresh, number, word, pointer]

/-! Arrays. -/

/-- An array counts as a pointer by the stars of its element. -/
theorem Ty.isPointer_of_isArray {type : Ty} (array : type.isArray = true) :
    type.isPointer = decide (0 < type.indirection) := by
  cases type with
  | array => rfl
  | _ => cases array

/-- What an array decays to is a pointer. -/
theorem isPointer_decayed {operand : Expression} (array : operand.type.isArray = true) :
    operand.promote.type.isPointer = true := by
  rw [Expression.type_promote]
  cases kind : operand.type with
  | array => simp [Ty.promote, Ty.isPointer]
  | _ =>
    rw [kind] at array
    cases array

/-- An array without stars is not cast to anything. -/
theorem checkCast_plainArray (target : Ty) {operand : Expression}
    (array : operand.type.isArray = true) (plain : operand.type.indirection = 0) :
    checkCast target operand = ⟨.unary .cast operand .error, some .invalidCast⟩ := by
  have unstarred : operand.type.isPointer = false := by
    rw [Ty.isPointer_of_isArray array, plain]
    rfl
  cases kind : operand.type with
  | array =>
    apply checkCast_unfit target
    · rw [kind]; rfl
    · rw [kind]; rfl
    · rw [kind]; rfl
    · exact unstarred
  | _ =>
    rw [kind] at array
    cases array

/-- The address that an array decays to is cast to a pointer or to a word without a report, and to
nothing else. The array itself is judged alike exactly if its element has a star or the target takes no
address: an array of plain elements is never cast. -/
theorem cast_array (target : Ty) {operand : Expression} (array : operand.type.isArray = true)
    (checker : Checker) :
    let direct := checker.record (checkCast target operand)
    let decayed := checker.record (checkCast target operand.promote)
    (target.takesAddress → decayed.2 = checker ∧ decayed.1.type = target) ∧
    (¬ target.takesAddress → decayed.2 = checker.report .invalidCast ∧ decayed.1.type = .error) ∧
    (direct.2 = decayed.2 ∧ direct.1.type = decayed.1.type ↔
      0 < operand.type.indirection ∨ ¬ target.takesAddress) ∧
    (operand.type.indirection = 0 →
      direct = (.unary .cast operand .error, checker.report .invalidCast)) := by
  intro direct decayed
  obtain ⟨takes, refuses⟩ := @checkCast_pointer target _ (isPointer_decayed array)
  have taken (fits : target.takesAddress) : decayed.2 = checker ∧ decayed.1.type = target := by
    simp [decayed, Checker.record, takes fits]
  have refused (unfit : ¬ target.takesAddress) :
      decayed.2 = checker.report .invalidCast ∧ decayed.1.type = .error := by
    simp [decayed, Checker.record, refuses unfit, Expression.type]
  have plain (unstarred : operand.type.indirection = 0) :
      direct = (.unary .cast operand .error, checker.report .invalidCast) := by
    simp [direct, Checker.record, checkCast_plainArray target array unstarred]
  refine ⟨taken, refused, ?_, plain⟩
  by_cases starred : 0 < operand.type.indirection
  · -- With a star the array itself counts as a pointer, so both go by the target.
    have pointer : operand.type.isPointer = true := by
      rw [Ty.isPointer_of_isArray array]
      exact decide_eq_true starred
    obtain ⟨takesArray, refusesArray⟩ := @checkCast_pointer target _ pointer
    simp only [starred, true_or, iff_true]
    by_cases fits : target.takesAddress
    · simp [direct, decayed, Checker.record, takes fits, takesArray fits]
    · simp [direct, decayed, Checker.record, refuses fits, refusesArray fits, Expression.type]
  · have same := plain (Nat.eq_zero_of_not_pos starred)
    by_cases fits : target.takesAddress
    · -- The array is reported and its address is not.
      have longer : checker.report .invalidCast ≠ checker := by
        intro kept
        have counted := congrArg (·.reports.length) kept
        simp [Checker.report] at counted
      simp [same, taken fits, starred, fits, longer]
    · rw [same, (refused fits).1, (refused fits).2]
      exact ⟨fun _ => .inr fits, fun _ => ⟨rfl, rfl⟩⟩

/-- An array of pointers is cast to a pointer to integers, as the address of its first element is. -/
theorem cast_array_names :
    let names := Expression.identifier ⟨unitScope, 0⟩ (.array .char 1 3)
    let target := Ty.scalar .int 1
    let direct := Checker.record (checkCast target names) {}
    let decayed := Checker.record (checkCast target names.promote) {}
    names.type.isArray = true ∧ direct.2 = decayed.2 ∧ direct.1.type = decayed.1.type ∧
      decayed.2.reports = [] ∧ decayed.1.type = target := by
  intro names target direct decayed
  obtain ⟨takes, -, alike, -⟩ := @cast_array target names rfl {}
  obtain ⟨silent, ends⟩ := takes (.inl rfl)
  obtain ⟨same, type⟩ := alike.mpr (.inl (by decide))
  exact ⟨rfl, same, type, congrArg Checker.reports silent, ends⟩

/-- A text cannot be cast to a pointer to characters, and the address of its first character can. -/
theorem cast_array_text :
    let text := Expression.string "abc"
    let target := Ty.scalar .char 1
    let direct := Checker.record (checkCast target text) {}
    let decayed := Checker.record (checkCast target text.promote) {}
    text.type.isArray = true ∧
      direct.2.reports = [⟨.invalidCast, .start⟩] ∧ direct.1.type = .error ∧
      decayed.2.reports = [] ∧ decayed.1.type = target := by
  exact ⟨rfl, rfl, rfl, rfl, rfl⟩

end SmallC
