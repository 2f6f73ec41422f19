import SmallC.Check.Operators
import SmallC.Proofs.Typing.Conversions

/-! Conversions of expressions follow the algebra of types, a second conversion changes nothing, and
operators that extend their operands toward each other do not care which one comes first. -/

namespace SmallC

namespace Ty

variable {type target : Ty}

/-- Only characters become words. -/
theorem promote_eq_int : type.promote = .int ↔ type = .char ∨ type = .int := by
  cases type with
  | scalar specifier indirection =>
    cases specifier <;> cases indirection <;> simp [promote, int, char]
  | array specifier indirection length => simp [promote, int, char]
  | _ => simp [promote, int, char]

/-- Nothing becomes a floating-point number that was none. -/
theorem promote_eq_double : type.promote = .double ↔ type = .double := by
  cases type with
  | scalar specifier indirection =>
    cases specifier <;> cases indirection <;> simp [promote, int, double]
  | array specifier indirection length => simp [promote, double]
  | _ => simp [promote, double]

/-- No promoted operand is a character. -/
theorem promote_ne_char : type.promote ≠ .char := by
  intro same
  -- The character itself would have to be promoted, and it is a word then.
  have promoted := congrArg promote same
  rw [promote_promote, same] at promoted
  cases promoted

theorem compatible_iff {other : Ty} :
    type.compatible other = true ↔ type.promote = other.promote := by
  simp [compatible]

theorem compatible_comm (left right : Ty) : left.compatible right = right.compatible left := by
  rw [Bool.eq_iff_iff, compatible_iff, compatible_iff]
  exact eq_comm

end Ty

namespace Expression

/-- No value is truncated to its own type. -/
theorem narrows_self (type : Ty) : narrows type type = false := by
  cases type with
  | scalar specifier indirection => cases specifier <;> cases indirection <;> rfl
  | _ => rfl

/-- A value that is not truncated is not truncated once it is promoted. -/
theorem narrows_promote {source target : Ty} (whole : narrows source target = false)
    (differ : source ≠ target) : narrows source.promote target = false := by
  simp only [narrows, Bool.or_eq_false_iff, Bool.and_eq_false_iff, decide_eq_false_iff_not] at *
  -- A word that was a character could be truncated to a character only.
  have words : source.promote = .int → source = .char ∨ source = .int := Ty.promote_eq_int.mp
  have reals : source.promote = .double → source = .double := Ty.promote_eq_double.mp
  grind

variable {operand left right : Expression}

/-- Promotion leaves an operand alone whose type is promoted. -/
theorem promote_eq_self (promoted : operand.type.promote = operand.type) :
    operand.promote = operand := by
  have whole : operand.type ≠ .char := fun character => Ty.promote_ne_char (promoted.trans character)
  have single : operand.type.isArray = false := by
    rw [← promoted]
    cases operand.type with
    | scalar specifier indirection => cases specifier <;> cases indirection <;> rfl
    | _ => rfl
  simp [promote, single, whole]

/-- Promotion does nothing a second time. -/
theorem promote_promote (operand : Expression) : operand.promote.promote = operand.promote :=
  promote_eq_self (by simp)

/-- Promotion is all there is to an extension that does not go to floating point. -/
theorem extend_eq_promote {other : Ty}
    (keeps : ¬ ((operand.type = .char ∨ operand.type = .int) ∧ other = .double)) :
    operand.extend other = operand.promote :=
  if_neg keeps

/-- Conversion leaves an operand of the target type alone. -/
theorem convert_eq_self {target : Ty} (same : operand.type = target) :
    operand.convert target = operand := by
  simp [convert, ← same, narrows_self]

/-- Conversion does nothing a second time. -/
theorem convert_convert (operand : Expression) (target : Ty) :
    (operand.convert target).convert target = operand.convert target := by
  rcases type_convert operand target with reached | ⟨-, whole, differ, keeps⟩
  · exact convert_eq_self reached
  · -- The operand has only been promoted, and its promotion is as far from the target as before.
    have once : operand.convert target = operand.promote := by
      simp [convert, whole, differ, extend_eq_promote keeps]
    rw [once]
    have untruncated : narrows operand.type.promote target = false := narrows_promote whole differ
    have unwidened : ¬ ((operand.promote.type = .char ∨ operand.promote.type = .int) ∧
        target = .double) := by
      rw [type_promote, Ty.promote_eq_int]
      rintro ⟨character | word, real⟩
      · exact Ty.promote_ne_char character
      · exact keeps ⟨word, real⟩
    simp [convert, untruncated, extend_eq_promote unwidened, promote_promote]

/-- That the left operand has been extended already makes no difference to the right one. -/
theorem extend_extended (left right : Expression) :
    right.extend (left.extend right.type).type = right.extend left.type := by
  -- The left operand goes to floating point only for a right one that is there.
  have reals : (right.type = .char ∨ right.type = .int) →
      ((left.extend right.type).type = .double ↔ left.type = .double) := by
    intro words
    have other : right.type ≠ .double := by
      rcases words with character | word
      · simp [character, Ty.char, Ty.double]
      · simp [word, Ty.int, Ty.double]
    rw [extend_eq_promote fun widens => other widens.2, type_promote, Ty.promote_eq_double]
  unfold extend
  by_cases words : right.type = .char ∨ right.type = .int
  · have same := reals words
    unfold extend at same
    simp only [words, same]
  · simp [words]

/-- Two numbers meet in floating point where one of them is there, and in words anywhere else. -/
theorem type_extend_of_numeric (left right : Expression)
    (first : (left.extend right.type).type.isNumeric = true)
    (second : (right.extend (left.extend right.type).type).type.isNumeric = true) :
    (left.extend right.type).type = (right.extend (left.extend right.type).type).type ∧
      (left.extend right.type).type =
        if left.type = .double ∨ right.type = .double then .double else .int := by
  have same := (met_extend left right).same first second
  refine ⟨same, ?_⟩
  -- A floating-point operand is itself extended to what it is.
  have stays (operand : Expression) (other : Ty) (real : operand.type = .double) :
      (operand.extend other).type = .double := by
    have kept : ¬ ((operand.type = .char ∨ operand.type = .int) ∧ other = .double) := by
      simp [real, Ty.char, Ty.int, Ty.double]
    rw [extend_eq_promote kept, type_promote, real, Ty.promote_double]
  by_cases real : left.type = .double
  · rw [if_pos (.inl real)]
    exact stays left _ real
  · by_cases other : right.type = .double
    · rw [if_pos (.inr other), same]
      exact stays right _ other
    · -- Neither operand is there, so the left one is promoted, which makes no such number.
      rw [if_neg (not_or.mpr ⟨real, other⟩)]
      have promoted : left.extend right.type = left.promote :=
        extend_eq_promote fun widens => other widens.2
      rw [promoted, type_promote] at first ⊢
      have kind := Ty.arithmetic_of_isNumeric (Ty.promote_promote left.type) first
      generalize reached : left.type.promote = type at kind ⊢
      cases kind with
      | int => rfl
      | double => exact absurd (Ty.promote_eq_double.mp reached) real

end Expression

/-- Operands may change places: the same problem is found, and the node has the same type. -/
def Commutes (check : Expression → Expression → Verdict Expression) : Prop :=
  ∀ left right, (check left right).problem? = (check right left).problem? ∧
    (check left right).node.type = (check right left).node.type

section Operators

variable {plain : BinaryOp} {sign : String} {rule : Ty → Ty → Option (BinaryOp × Ty)}

/-- A rule that gives two types the same answer either way judges the operands either way. -/
theorem judge_swap {left right : Expression}
    (fair : (rule left.type right.type).map Prod.snd = (rule right.type left.type).map Prod.snd) :
    (judge plain sign rule left right).problem? = (judge plain sign rule right left).problem? ∧
      (judge plain sign rule left right).node.type =
        (judge plain sign rule right left).node.type := by
  unfold judge
  rw [Bool.or_comm right.type.isError]
  split
  · exact ⟨rfl, rfl⟩
  · cases first : rule left.type right.type <;> cases second : rule right.type left.type
    · exact ⟨rfl, rfl⟩
    · simp [first, second] at fair
    · simp [first, second] at fair
    · -- The scales of the operators may differ, and the types do not.
      simp only [first, second, Option.map_some, Option.some.injEq] at fair
      exact ⟨rfl, fair⟩

/-- Both operands are extended toward what the other one was. -/
theorem judgeExtended_eq (left right : Expression) :
    judgeExtended plain sign rule left right =
      judge plain sign rule (left.extend right.type) (right.extend left.type) := by
  dsimp only [judgeExtended]
  rw [Expression.extend_extended]

/-- An operator commutes that extends its operands if its rule does where they have met. -/
theorem commutes_judgeExtended
    (fair : ∀ left right, (left.isNumeric = true → right.isNumeric = true → left = right) →
      (rule left right).map Prod.snd = (rule right left).map Prod.snd) :
    Commutes (judgeExtended plain sign rule) := by
  intro left right
  rw [judgeExtended_eq, judgeExtended_eq]
  apply judge_swap
  have met := (Expression.met_extend left right).same
  rw [Expression.extend_extended] at met
  exact fair _ _ met

/-- An operator commutes that promotes its operands if its rule does. -/
theorem commutes_judgePromoted
    (fair : ∀ left right, (rule left right).map Prod.snd = (rule right left).map Prod.snd) :
    Commutes (judgePromoted plain sign rule) :=
  fun _ _ => judge_swap (fair _ _)

/-- Of two numbers that have met either one has the type of their product. -/
theorem numeric_swap {op : BinaryOp} {left right : Ty}
    (met : left.isNumeric = true → right.isNumeric = true → left = right) :
    (if left.isNumeric && right.isNumeric then some (op, left) else none).map Prod.snd =
      (if right.isNumeric && left.isNumeric then some (op, right) else none).map Prod.snd := by
  rw [Bool.and_comm right.isNumeric]
  by_cases both : (left.isNumeric && right.isNumeric) = true
  · have numbers := Bool.and_eq_true_iff.mp both
    rw [met numbers.1 numbers.2]
  · rw [if_neg both, if_neg both]

theorem commutes_checkMultiply : Commutes checkMultiply :=
  commutes_judgeExtended fun _ _ => numeric_swap

theorem commutes_checkDivide : Commutes checkDivide :=
  commutes_judgeExtended fun _ _ => numeric_swap

theorem commutes_checkRemainder : Commutes checkRemainder := by
  apply commutes_judgePromoted
  intro left right
  rw [Bool.and_comm]

/-- A pointer is moved by an integer on either side. -/
theorem commutes_checkAdd : Commutes checkAdd := by
  apply commutes_judgeExtended
  intro left right met
  -- No type is a number and a pointer, nor an integer and a pointer.
  have apart (type : Ty) (pointer : type.isPointer = true) :
      type.isNumeric = false ∧ type.isInteger = false := by
    cases type with
    | scalar specifier indirection =>
      cases indirection with
      | zero => cases pointer
      | succ indirection => cases specifier <;> exact ⟨rfl, rfl⟩
    | array => exact ⟨rfl, rfl⟩
    | error | function => cases pointer
  grind

theorem commutes_checkCompare (relation : Comparison) : Commutes (checkCompare relation) := by
  apply commutes_judgeExtended
  intro left right _
  rw [Ty.compatible_comm]

end Operators

/-- Promotion and conversion do to trees what they do to types and do it once; two numbers meet in one
type; and the operators whose operands are treated alike find the same problem and give the same type
when the operands change places. -/
theorem conversions_agree :
    (∀ operand : Expression, operand.promote.type = operand.type.promote ∧
      operand.promote.promote = operand.promote) ∧
    (∀ (operand : Expression) (target : Ty),
      (operand.convert target).convert target = operand.convert target) ∧
    (∀ left right : Expression, left.type.compatible right.type = true ↔
      left.promote.type = right.promote.type) ∧
    (∀ left right : Expression,
      let first := left.extend right.type
      let second := right.extend first.type
      first.type.isNumeric = true → second.type.isNumeric = true →
        first.type = second.type ∧
          first.type = if left.type = .double ∨ right.type = .double then .double else .int) ∧
    Commutes checkAdd ∧ Commutes checkMultiply ∧ Commutes checkDivide ∧ Commutes checkRemainder ∧
    ∀ relation, Commutes (checkCompare relation) := by
  refine ⟨fun operand => ⟨Expression.type_promote operand, operand.promote_promote⟩,
    Expression.convert_convert, fun left right => ?_, Expression.type_extend_of_numeric,
    commutes_checkAdd, commutes_checkMultiply, commutes_checkDivide, commutes_checkRemainder,
    commutes_checkCompare⟩
  rw [Expression.type_promote, Expression.type_promote]
  exact Ty.compatible_iff

/-- A character meets a floating-point number there. -/
theorem conversions_agree_character :
    let left := Expression.integer 65 .char
    let right := Expression.real "0.5"
    let first := left.extend right.type
    let second := right.extend first.type
    (first.type.isNumeric = true ∧ second.type.isNumeric = true) ∧
      first.type = second.type ∧ first.type = .double := by
  have numeric : ((Expression.integer 65 .char).extend .double).type.isNumeric = true := by decide
  obtain ⟨-, -, -, meet, -⟩ := conversions_agree
  have met := meet (.integer 65 .char) (.real "0.5") numeric (by decide)
  exact ⟨⟨numeric, by decide⟩, met⟩

end SmallC
