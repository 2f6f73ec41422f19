import SmallC.Proofs.Frames.Slots

/-! Accesses: the code that is emitted for a computed value stays in the places of the value and of
the result. -/

namespace SmallC

attribute [local simp] Opcode.accessed Opcode.bytes Lowering.pure_eq Lowering.map_eq
  Lowering.bind_eq Lowering.temporary_eq

theorem width_size_of_real {type : Ty} (real : type.isReal = true) : (Width.of type).size = 8 := by
  simp [Width.of, real, Width.size]

variable {size : Nat} {slots : List Slot} {value left right result : Operand}

/-- A value of any width can be loaded where it fits. -/
@[simp] theorem stays_load {width : Width} {register : Register}
    (fits : value.Fits size slots width.size) (base : register ≠ .ebp) (stop : register ≠ .esp) :
    (load value width register).Stays size slots := by
  unfold load
  split
  · next byte =>
    simp only [byte.1, Width.size] at fits
    simp [fits, base, stop]
  · cases width with
    | byte =>
      -- Only a constant is loaded as a word all the same.
      have constant : value.offset? size = none := by
        cases value <;> simp_all [Operand.isImmediate, Operand.offset?]
      simp [Operand.fits_of_none 4 constant, base, stop]
    | long => simp [show value.Fits size slots 4 from fits, base, stop]
    | double => simp [show value.Fits size slots 4 from fits.fewer (by decide), base, stop]

theorem stays_compareZero {type : Ty} (fits : value.Fits size slots (Width.of type).size) :
    Stays size slots (compareZero value type) := by
  unfold compareZero
  split
  · next real =>
    rw [width_size_of_real real] at fits
    simp [fits]
  · simp [fits]

theorem stays_storeCondition (opcode : Opcode) (kept : result.Fits size slots 4) :
    Stays size slots (storeCondition opcode result) := by
  simp [storeCondition, kept]

theorem stays_scaleBy (scale : Nat) {register : Register} (base : register ≠ .ebp)
    (stop : register ≠ .esp) : Stays size slots (scaleBy scale register) := by
  unfold scaleBy
  split <;> simp [base, stop]

theorem stays_divideWords : Stays size slots divideWords := by simp [divideWords]

theorem stays_loadBoth {leftType rightType : Ty}
    (first : left.Fits size slots (Width.of leftType).size)
    (second : right.Fits size slots (Width.of rightType).size) (scaleLeft scaleRight : Nat) :
    Stays size slots (loadBoth left right leftType rightType scaleLeft scaleRight) := by
  simp [loadBoth, stays_scaleBy, first, second]

theorem stays_storeWord (kept : result.Fits size slots 4) :
    (storeWord result).Stays size slots := by
  simp [storeWord, kept]

/-- An arithmetic operator stays in its places, all being floating-point numbers when the result
is one. -/
theorem stays_arithmetic {real : Opcode} {words : Code} {type leftType rightType : Ty}
    (full : real.accessed = 8) (inside : Stays size slots words)
    (first : left.Fits size slots (Width.of leftType).size)
    (second : right.Fits size slots (Width.of rightType).size)
    (kept : result.Fits size slots (Width.of type).size)
    (reals : type.isReal = true → leftType = type ∧ rightType = type)
    (word : type.isReal = false → (Width.of type).size = 4) (scaleLeft scaleRight : Nat) :
    Stays size slots (arithmetic real words type left right result leftType rightType scaleLeft
      scaleRight) := by
  unfold arithmetic
  split
  -- All three are numbers of eight bytes then, and so is what the operation reads.
  · next isReal =>
    obtain ⟨rfl, rfl⟩ := reals isReal
    rw [width_size_of_real isReal] at first second kept
    have worked : (operate real [right]).Stays size slots := by
      have other : real ≠ .fnstsw := by
        rintro rfl
        cases full
      rw [stays_operate, List.forall_mem_singleton, Argument.fits_operand other, full]
      exact .inr second
    simp [realOperation, first, worked, kept]
  · next other =>
    rw [word (Bool.eq_false_iff.mpr other)] at kept
    simp [stays_loadBoth first second, inside, stays_storeWord kept]

theorem stays_countElements (scale : Nat) (kept : result.Fits size slots 4) :
    Stays size slots (countElements scale result) := by
  unfold countElements
  split <;> simp [kept, stays_divideWords, stays_storeWord kept]

theorem stays_compareValues (relation : Comparison) {type : Ty}
    (first : left.Fits size slots (Width.of type).size)
    (second : right.Fits size slots (Width.of type).size) (kept : result.Fits size slots 4) :
    Stays size slots (compareValues relation type type left right result) := by
  unfold compareValues
  rw [stays_append]
  refine ⟨?_, stays_storeCondition _ kept⟩
  -- The result is a word whichever values are compared.
  split
  · next real =>
    rw [width_size_of_real real] at first second
    simp [first, second]
  · simp [first, second]

/-- A strict operator on values of its types stays in the places of the values and of the result. -/
theorem stays_operateOn {op : BinaryOp} {type leftType rightType : Ty}
    (types : op.Types leftType rightType type)
    (first : left.Fits size slots (Width.of leftType).size)
    (second : right.Fits size slots (Width.of rightType).size)
    (kept : result.Fits size slots (Width.of type).size) :
    Stays size slots (operateOn op type leftType rightType left right result) := by
  have words (opcode : Opcode) : Stays size slots (onWords opcode) := by simp [onWords]
  -- What is no floating-point number is a word, whether it is a number or a pointer.
  have number {type : Ty} (arithmetic : type.Arithmetic) (other : type.isReal = false) :
      (Width.of type).size = 4 := by
    cases arithmetic with
    | int => rfl
    | double => cases other
  have pointer (specifier : Specifier) (indirection : Nat) :
      (Ty.scalar specifier (indirection + 1)).isReal = false ∧
        (Width.of (.scalar specifier (indirection + 1))).size = 4 := by
    simp [Width.of, Ty.isReal, Ty.char, Width.size]
  cases types with
  | multiply number' =>
    exact stays_arithmetic rfl (words _) first second kept (fun _ => ⟨rfl, rfl⟩)
      (number number') _ _
  | divide number' =>
    exact stays_arithmetic rfl stays_divideWords first second kept (fun _ => ⟨rfl, rfl⟩)
      (number number') _ _
  | add number' =>
    exact stays_arithmetic rfl (words _) first second kept (fun _ => ⟨rfl, rfl⟩)
      (number number') _ _
  | addRight specifier indirection | addLeft specifier indirection =>
    obtain ⟨unreal, word⟩ := pointer specifier indirection
    exact stays_arithmetic rfl (words _) first second kept (by simp [unreal]) (fun _ => word) _ _
  | subtract number' =>
    unfold operateOn
    rw [stays_append]
    exact ⟨stays_arithmetic rfl (words _) first second kept (fun _ => ⟨rfl, rfl⟩)
      (number number') _ _,
      by simp [countElements]⟩
  | subtractRight specifier indirection =>
    obtain ⟨unreal, word⟩ := pointer specifier indirection
    unfold operateOn
    rw [stays_append]
    exact ⟨stays_arithmetic rfl (words _) first second kept (by simp [unreal]) (fun _ => word) _ _,
      stays_countElements _ (word ▸ kept)⟩
  | difference =>
    unfold operateOn
    rw [stays_append]
    exact ⟨stays_arithmetic rfl (words _) first second kept (fun real => nomatch real)
      (fun _ => rfl) _ _, stays_countElements _ kept⟩
  | remainder =>
    have kept : result.Fits size slots 4 := kept
    simp [operateOn, stays_loadBoth first second, stays_divideWords, kept]
  | compare relation promoted => exact stays_compareValues relation first second kept
  | logicalAnd | logicalOr => exact stays_nil

theorem stays_negation {type : Ty} (arithmetic : type.Arithmetic)
    (fits : value.Fits size slots (Width.of type).size)
    (kept : result.Fits size slots (Width.of type).size) :
    Stays size slots (Expression.negation type type value result) := by
  -- The width of each place is known once the type is.
  cases arithmetic with
  | int =>
    have kept : result.Fits size slots 4 := kept
    simp [Expression.negation, Ty.isReal, Ty.int, stays_storeWord kept]
    exact stays_load fits (by simp) (by simp)
  | double =>
    have fits : value.Fits size slots 8 := fits
    have kept : result.Fits size slots 8 := kept
    simp [Expression.negation, Ty.isReal, Ty.double, fits, kept]

theorem stays_storeReturned {type : Ty} (kept : result.Fits size slots (Width.of type).size) :
    (storeReturned type result).Stays size slots := by
  unfold storeReturned
  split <;> next width => rw [width] at kept; simp only [Width.size] at kept; simp [kept]

theorem stays_copyPointed {type : Ty} (kept : result.Fits size slots (Width.of type).size) :
    Stays size slots (copyPointed type result) := by
  unfold copyPointed
  dsimp only
  split <;> next width => rw [width] at kept; simp only [Width.size] at kept; simp [kept]

/-- Stepping reads and writes the target in the width of its type, and keeps the value likewise. -/
theorem stays_stepTarget (op : StepOp) (scale : Nat) {type : Ty}
    (fits : value.Fits size slots (Width.of type).size)
    (kept : result.Fits size slots (Width.of type).size) :
    Stays size slots (stepTarget op scale type value result) := by
  -- All four steps have the same shape in each of the three widths.
  cases op <;> unfold stepTarget <;> dsimp only <;> split <;> next width =>
    rw [width] at fits kept
    simp only [Width.size] at fits kept
    simp [fits, kept]

/-- Storing reads the value and writes the place in the width that both have. -/
theorem stays_storeValue {type : Ty} {ready : Code} {target : Operand}
    (fits : value.Fits size slots (Width.of type).size) (inside : Stays size slots ready)
    (kept : target.Fits size slots (Width.of type).size) {place : Place}
    (resolves : place.resolve = (ready, target)) :
    Stays size slots (storeValue type type place value) := by
  have loaded := @stays_load size slots value _ .eax fits (by simp) (by simp)
  unfold storeValue
  simp only [resolves]
  split <;> next width =>
    rw [width] at fits kept
    simp only [Width.size] at fits kept
    simp [fits, kept, inside, loaded]

theorem stays_loadReturned {type : Ty} (fits : value.Fits size slots (Width.of type).size) :
    (loadReturned type value).Stays size slots := by
  unfold loadReturned
  split
  · next width =>
    rw [width] at fits
    simp only [Width.size] at fits
    simp [fits]
  · exact stays_load fits (by simp) (by simp)

/-- Whether a conversion goes through a scratch word: from a number of one kind to another one the
floating-point stack has no instruction for. -/
def usesScratch (source target : Ty) (value : Operand) : Bool :=
  match Width.of source, Width.of target with
  | .double, .byte => true
  | .long, .double => value.isImmediate
  | .byte, .double => true
  | _, _ => false

/-- A conversion stays in the places of the value, of the result and of its scratch word. -/
theorem stays_convertValue {source target : Ty} {progress : Progress}
    (fits : value.Fits size slots (Width.of source).size)
    (kept : result.Fits size slots (Width.of target).size)
    (scratch : usesScratch source target value = true → (progress.slot .int).Fits size slots 4) :
    Stays size slots (convertValue source target value result progress).1 := by
  have loaded := @stays_load size slots value _ .eax fits (by simp) (by simp)
  unfold usesScratch at scratch
  unfold convertValue
  -- One sequence for each pair of widths; three of them go through the scratch word.
  cases given : Width.of source <;> cases wanted : Width.of target <;>
    simp only [given, wanted, Width.size] at fits kept scratch loaded ⊢
  case double.double | double.long => simp [fits, kept]
  case double.byte => simp [fits, kept, scratch]
  case byte.double => simp [loaded, kept, scratch, stays_storeWord]
  case long.double =>
    -- Only a constant cannot be pushed from where it is.
    cases constant : value.isImmediate with
    | true => simp [loaded, kept, stays_storeWord (scratch constant), scratch constant]
    | false => simp [fits, kept]
  case byte.long | long.long => simp [loaded, stays_storeWord kept]
  case byte.byte | long.byte => simp [loaded, kept]

end SmallC
