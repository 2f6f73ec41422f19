import SmallC.Proofs.Typing.Rules

/-! Implicit conversions keep expressions typed and bring their types where operators need them. -/

namespace SmallC

namespace Ty

/-- Promotion leaves a promoted type alone. -/
@[simp] theorem promote_promote (type : Ty) : type.promote.promote = type.promote := by
  cases type with
  | scalar specifier indirection => cases specifier <;> cases indirection <;> rfl
  | array specifier indirection length => cases specifier <;> rfl
  | _ => rfl

/-- Words are promoted. -/
@[simp] theorem promote_int : int.promote = int := rfl

/-- Floating-point numbers are promoted. -/
@[simp] theorem promote_double : double.promote = double := rfl

/-- Pointers are promoted. -/
@[simp] theorem promote_pointer (specifier : Specifier) (indirection : Nat) :
    (scalar specifier (indirection + 1)).promote = .scalar specifier (indirection + 1) := by
  cases specifier <;> rfl

/-- Promoted numbers are those that arithmetic works on. -/
theorem arithmetic_of_isNumeric {type : Ty} (promoted : type.promote = type)
    (numeric : type.isNumeric = true) : type.Arithmetic := by
  -- Promotion has made an integer of a character.
  cases type with
  | scalar specifier indirection =>
    cases indirection with
    | zero =>
      cases specifier with
      | char => simp [promote, int] at promoted
      | int => exact .int
      | double => exact .double
    | succ indirection => simp [isNumeric] at numeric
  | _ => simp [isNumeric] at numeric

/-- The only integers beside characters are words. -/
theorem eq_int_of_isInteger {type : Ty} (integer : type.isInteger = true) : type = .int := by
  unfold isInteger at integer
  split at integer
  · rfl
  · contradiction

/-- A promoted pointer is a scalar with a star. -/
theorem pointer_of_isPointer {type : Ty} (promoted : type.promote = type)
    (pointer : type.isPointer = true) :
    ∃ specifier indirection, type = .scalar specifier (indirection + 1) := by
  -- Promotion has made a pointer of an array.
  cases type with
  | scalar specifier indirection =>
    cases indirection with
    | zero => simp [isPointer] at pointer
    | succ indirection => exact ⟨specifier, indirection, rfl⟩
  | array specifier indirection length => simp [promote] at promoted
  | _ => simp [isPointer] at pointer

/-- Whatever counts as a pointer promotes to a scalar with a star. -/
theorem pointer_of_promote {type : Ty} (pointer : type.isPointer = true) :
    ∃ specifier indirection, type.promote = .scalar specifier (indirection + 1) := by
  cases type with
  | scalar specifier indirection =>
    cases indirection with
    | zero => simp [isPointer] at pointer
    | succ indirection => exact ⟨specifier, indirection, promote_pointer _ _⟩
  | array specifier indirection length => exact ⟨specifier, indirection, rfl⟩
  | _ => simp [isPointer] at pointer

/-- Promoted predicates are testable. -/
theorem testable_of_isPredicate {type : Ty} (promoted : type.promote = type)
    (predicate : type.isPredicate = true) : type.Testable := by
  -- A predicate is a number or a pointer.
  simp only [isPredicate, Bool.or_eq_true] at predicate
  rcases predicate with numeric | pointer
  · cases arithmetic_of_isNumeric promoted numeric with
    | int => exact .int
    | double => exact .double
  · obtain ⟨specifier, indirection, rfl⟩ := pointer_of_isPointer promoted pointer
    exact .pointer specifier indirection

/-- Numbers without stars are scalars of their specifier. -/
theorem scalar_of_isNumeric {type : Ty} (numeric : type.isNumeric = true) :
    ∃ specifier, type = .scalar specifier 0 := by
  unfold isNumeric at numeric
  split at numeric
  · exact ⟨_, rfl⟩
  · contradiction

end Ty

namespace Expression

variable {symbols : SymbolTable}

/-- Promoting an expression promotes its type. -/
@[simp] theorem type_promote (expression : Expression) :
    expression.promote.type = expression.type.promote := by
  unfold promote
  split
  · rfl
  · split
    · rename_i character
      rw [character]
      rfl
    · -- Any other type is its own promotion.
      rename_i array character
      cases kind : expression.type with
      | scalar specifier indirection =>
        rw [kind] at character
        cases specifier <;> cases indirection <;> first | rfl | exact absurd rfl character
      | array specifier indirection length => simp [kind, Ty.isArray] at array
      | _ => rfl

/-- Promotion keeps an expression typed. -/
theorem Typed.promote {expression : Expression} (typed : expression.Typed symbols) :
    expression.promote.Typed symbols := by
  -- Arrays decay, characters are widened, and other values stay.
  unfold Expression.promote
  split
  · rename_i array
    cases kind : expression.type with
    | array specifier indirection length => exact .decay typed kind
    | _ => simp [kind, Ty.isArray] at array
  · split
    · rename_i character
      have converts : expression.type.Converts .int := by
        rw [character]
        exact .numbers (by simp)
      exact .unary typed (.cast converts)
    · exact typed

/-- Widening an integer or a character keeps it typed. -/
theorem Typed.widen {expression : Expression} (typed : expression.Typed symbols)
    (whole : expression.type = .char ∨ expression.type = .int) :
    expression.widen.Typed symbols := by
  have converts : expression.type.Converts .double := by
    rcases whole with character | word
    · rw [character]
      exact .numbers (by simp)
    · rw [word]
      exact .numbers (by simp)
  -- A literal is respelled instead of being converted.
  cases expression with
  | integer value type => exact .real _
  | _ => exact .unary typed (.cast converts)

/-- A widened expression is a floating-point number. -/
@[simp] theorem type_widen (expression : Expression) : expression.widen.type = .double := by
  cases expression <;> rfl

/-- The type of an operand that was extended toward another type. -/
theorem type_extend (expression : Expression) (other : Ty) :
    (expression.extend other).type =
      if (expression.type = .char ∨ expression.type = .int) ∧ other = .double then .double
      else expression.type.promote := by
  unfold extend
  split <;> simp

/-- Extension keeps an expression typed. -/
theorem Typed.extend {expression : Expression} (typed : expression.Typed symbols) (other : Ty) :
    (expression.extend other).Typed symbols := by
  unfold Expression.extend
  split
  · rename_i widens
    exact typed.widen widens.1
  · exact typed.promote

/-- Extension leaves no character and no array. -/
@[simp] theorem promote_type_extend (expression : Expression) (other : Ty) :
    (expression.extend other).type.promote = (expression.extend other).type := by
  rw [type_extend]
  split <;> simp

/-- Conversion keeps an expression typed. -/
theorem Typed.convert {expression : Expression} (typed : expression.Typed symbols) (target : Ty) :
    (expression.convert target).Typed symbols := by
  unfold Expression.convert
  split
  · -- Every truncation goes from one number to another.
    rename_i narrowing
    have converts : expression.type.Converts target := by
      simp only [narrows, Bool.or_eq_true, Bool.and_eq_true, decide_eq_true_eq] at narrowing
      rcases narrowing with ⟨source, rfl⟩ | ⟨source, rfl | rfl⟩ <;> rw [source]
        <;> exact .numbers (by simp)
    exact .unary typed (.cast converts)
  · split
    · exact typed
    · exact typed.extend target

/-- The type of an operand that was converted to a target. -/
theorem type_convert (expression : Expression) (target : Ty) :
    (expression.convert target).type = target ∨
      (expression.convert target).type = expression.type.promote ∧
        narrows expression.type target = false ∧ expression.type ≠ target ∧
        ¬ ((expression.type = .char ∨ expression.type = .int) ∧ target = .double) := by
  -- A conversion reaches its target unless none of its rules applies.
  unfold convert
  split
  · exact .inl rfl
  · rename_i whole
    split
    · rename_i same
      exact .inl same
    · rename_i differ
      rw [type_extend]
      split
      · rename_i widens
        exact .inl widens.2.symm
      · rename_i keeps
        exact .inr ⟨rfl, by simpa using whole, differ, keeps⟩

/-- A value converted to a compatible scalar type has that very type. -/
theorem type_convert_of_compatible {expression : Expression} {specifier : Specifier}
    {indirection : Nat}
    (fit : (Ty.scalar specifier indirection).compatible
      (expression.convert (.scalar specifier indirection)).type = true) :
    (expression.convert (.scalar specifier indirection)).type = .scalar specifier indirection := by
  rcases type_convert expression (.scalar specifier indirection) with
    same | ⟨kept, whole, differ, -⟩
  · exact same
  · -- Otherwise both promote to one type, which only characters and words could blur.
    rw [kept] at fit ⊢
    simp only [Ty.compatible, Ty.promote_promote, beq_iff_eq] at fit
    rw [← fit]
    cases indirection with
    | succ indirection => simp
    | zero =>
      cases specifier with
      | int | double => rfl
      | char =>
        cases source : expression.type with
        | scalar kind depth =>
          rw [source] at fit whole differ
          cases kind <;> cases depth <;>
            simp_all [Ty.promote, Ty.int, Ty.char, narrows]
        | _ => simp [source, Ty.promote, Ty.int] at fit

/-- A number converted to a number has that very type. -/
theorem type_convert_of_numeric {expression : Expression} {target : Ty}
    (numeric : target.isNumeric = true) (source : expression.type.isNumeric = true) :
    (expression.convert target).type = target := by
  obtain ⟨kind, rfl⟩ := Ty.scalar_of_isNumeric numeric
  obtain ⟨specifier, number⟩ := Ty.scalar_of_isNumeric source
  rcases type_convert expression (.scalar kind 0) with same | ⟨kept, whole, differ, keeps⟩
  · exact same
  · -- Of the pairs that neither narrow nor widen, only a character becomes a word.
    rw [number] at kept whole differ keeps
    cases kind <;> cases specifier <;>
      simp_all [narrows, Ty.int, Ty.char, Ty.double, Ty.promote]

/-- What has become of two operands that were extended toward each other. -/
structure Met (left right : Ty) : Prop where
  /-- The left type is promoted. -/
  first : left.promote = left
  /-- The right type is promoted. -/
  second : right.promote = right
  /-- Two numbers have met in one type. -/
  same : left.isNumeric = true → right.isNumeric = true → left = right

/-- Operands extended toward each other, the left one first, meet. -/
theorem met_extend (left right : Expression) :
    Met (left.extend right.type).type
      (right.extend (left.extend right.type).type).type := by
  refine ⟨promote_type_extend _ _, promote_type_extend _ _, ?_⟩
  intro first second
  -- Promoted numbers are words or floating-point numbers, and one of the latter widens the other.
  have leftKind := Ty.arithmetic_of_isNumeric (promote_type_extend left right.type) first
  have rightKind := Ty.arithmetic_of_isNumeric (promote_type_extend right _) second
  simp only [type_extend] at leftKind rightKind first second ⊢
  cases l : left.type with
  | scalar specifier indirection =>
    cases r : right.type with
    | scalar kind depth =>
      cases specifier <;> cases indirection <;> cases kind <;> cases depth <;>
        simp_all [Ty.promote, Ty.int, Ty.char, Ty.double, Ty.isNumeric]
    | _ => simp_all [Ty.promote, Ty.int, Ty.char, Ty.double, Ty.isNumeric]
  | _ => simp_all [Ty.promote, Ty.int, Ty.char, Ty.double, Ty.isNumeric]

end Expression

end SmallC
