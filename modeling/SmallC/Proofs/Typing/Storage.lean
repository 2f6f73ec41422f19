import Mathlib
import SmallC.Proofs.Derivations.Phrases
import SmallC.Proofs.Typing.Verdicts
import SmallC.Source.Tokens

/-! Storage: which expressions of the source may be stepped, stored to and have an address. -/

namespace SmallC

/-! The nodes that conversions and checks make. -/

namespace Expression

/-- Promotion leaves an operand as it is, or makes a value of it. -/
theorem promote_value (operand : Expression) :
    operand.promote = operand ∨ operand.promote.isLvalue = false := by
  unfold promote
  split
  · exact .inr rfl
  · split
    · exact .inr rfl
    · exact .inl rfl

theorem widen_value (operand : Expression) : operand.widen.isLvalue = false := by
  unfold widen
  split <;> rfl

theorem extend_value (operand : Expression) (other : Ty) :
    operand.extend other = operand ∨ (operand.extend other).isLvalue = false := by
  unfold extend
  split
  · exact .inr operand.widen_value
  · exact operand.promote_value

theorem convert_value (operand : Expression) (target : Ty) :
    operand.convert target = operand ∨ (operand.convert target).isLvalue = false := by
  unfold convert
  split
  · exact .inr rfl
  · split
    · exact .inl rfl
    · exact operand.extend_value target

end Expression

/-- Of the operators by a rule on one type, only the one that follows a pointer makes storage. -/
theorem isLvalue_checkUnary (op : UnaryOp) (sign : String) (rule : Ty → Option Ty)
    (operand : Expression) :
    (checkUnary op sign rule operand).node.isLvalue = decide (op = .dereference) := by
  unfold checkUnary
  dsimp only
  split
  · cases op <;> rfl
  · split <;> cases op <;> rfl

theorem isLvalue_judge (plain : BinaryOp) (sign : String) (rule : Ty → Ty → Option (BinaryOp × Ty))
    (left right : Expression) : (judge plain sign rule left right).node.isLvalue = false := by
  unfold judge
  split
  · rfl
  · split <;> rfl

/-- An operator between its operands makes a value. -/
theorem isLvalue_binary (sign : BinarySign) (left right : Expression) :
    (sign.check left right).node.isLvalue = false := by
  cases sign <;> exact isLvalue_judge _ _ _ _ _

/-- A subscript makes storage. -/
theorem isLvalue_checkSubscript (left right : Expression) :
    (checkSubscript left right).node.isLvalue = true := by
  unfold checkSubscript
  dsimp only
  split
  · rfl
  · split <;> rfl

/-- A step makes a value. -/
theorem isLvalue_checkStep (op : StepOp) (operand : Expression) :
    (checkStep op operand).node.isLvalue = false := by
  unfold checkStep
  dsimp only
  split <;> rfl

/-- A call makes a value. -/
theorem isLvalue_checkCall (callee : SymbolId) (type : Ty) (arguments : List Expression) :
    (checkCall callee type arguments).node.isLvalue = false := by
  unfold checkCall
  dsimp only
  split
  · rfl
  · split
    · rfl
    · split <;> rfl
  · rfl

/-- A cast to the type that its operand has is the operand itself. -/
theorem checkCast_same {specifier : Specifier} {indirection : Nat} {operand : Expression}
    (same : operand.type = .scalar specifier indirection) :
    checkCast (.scalar specifier indirection) operand = ⟨operand, none⟩ := by
  cases indirection with
  | zero =>
    -- A number is converted to what it is already.
    have kept : operand.convert (.scalar specifier 0) = operand := by
      rw [Expression.convert, same, if_neg (by cases specifier <;> decide), if_pos rfl]
    simp [checkCast, same, Ty.isError, Ty.isNumeric, kept]
  | succ indirection =>
    have kept : operand.promote = operand := by
      simp [Expression.promote, same, Ty.isArray, Ty.char]
    simp [checkCast, same, Ty.isError, Ty.isNumeric, Ty.isPointer, kept]

/-- A cast to another type makes a value, unless its operand has been reported. -/
theorem isLvalue_checkCast {target : Ty} {operand : Expression} (differ : operand.type ≠ target)
    (fresh : operand.type ≠ .error) : (checkCast target operand).node.isLvalue = false := by
  -- What is brought to the type of the target is no longer the operand.
  have retyped {near : Expression} (made : near = operand ∨ near.isLvalue = false) :
      (if near.type = target then near else .unary .cast near target : Expression).isLvalue =
        false := by
    split
    · next same =>
      rcases made with rfl | value
      · exact absurd same differ
      · exact value
    · rfl
  have clean : operand.type.isError = false := by
    cases kind : operand.type with
    | error => exact absurd kind fresh
    | _ => rfl
  unfold checkCast
  simp only [clean, Bool.false_eq_true, if_false]
  split
  · exact retyped (operand.convert_value target)
  · split
    · exact retyped operand.promote_value
    · split
      · exact retyped operand.promote_value
      · rfl

/-! Source forms. -/

namespace Phrase

/-- Whether the outermost operator makes storage of a phrase that has the type: a scalar name, what a
pointer points to, or an element. -/
def isStorage (type : Ty) : Phrase → Bool
  | .name _ => type.isScalar
  | .unary .dereference _ | .subscript _ _ => true
  | _ => false

/-- A phrase without the casts in front of it that leave the type of their operand as it is. -/
def bare (checker : Checker) : Phrase → Phrase
  | .unary (.cast target) operand =>
    if (operand.elaborate checker).1.type = target then operand.bare checker
    else .unary (.cast target) operand
  | phrase => phrase

/-- An operator before its operand makes what its check makes of the operand. -/
theorem elaborate_unary (sign : UnarySign) (operand : Phrase) (checker : Checker) :
    ((unary sign operand).elaborate checker).1 =
      (sign.check (operand.elaborate checker).1).node :=
  rfl

/-- Of the operators before an operand that are no casts, only the one that follows a pointer makes
storage. -/
theorem isLvalue_unary {sign : UnarySign} (plain : ∀ target, sign ≠ .cast target) (operand : Phrase)
    (checker : Checker) (type : Ty) : ((unary sign operand).elaborate checker).1.isLvalue =
      ((unary sign operand).bare checker).isStorage type := by
  rw [elaborate_unary]
  cases sign with
  | not | negate | dereference =>
    rw [bare]
    · exact isLvalue_checkUnary _ _ _ _
    · nofun
  | address | sizeof => rfl
  | cast target => exact absurd rfl (plain target)

/-- A cast is storage exactly if it leaves the type of its operand and that is storage. -/
theorem isLvalue_cast {specifier : Specifier} {indirection : Nat} {operand : Phrase}
    {checker : Checker} (inner : (operand.elaborate checker).1.type ≠ .error →
      (operand.elaborate checker).1.isLvalue =
        (operand.bare checker).isStorage (operand.elaborate checker).1.type) :
    let cast := unary (.cast (.scalar specifier indirection)) operand
    (cast.elaborate checker).1.type ≠ .error → (cast.elaborate checker).1.isLvalue =
      (cast.bare checker).isStorage (cast.elaborate checker).1.type := by
  intro cast fresh
  rw [elaborate_unary] at fresh ⊢
  show (checkCast _ _).node.isLvalue = _
  by_cases same : (operand.elaborate checker).1.type = .scalar specifier indirection
  · -- The operand itself is handed on.
    have passed : cast.bare checker = operand.bare checker := by rw [bare, if_pos same]
    have kept : (checkCast (.scalar specifier indirection) (operand.elaborate checker).1).node =
        (operand.elaborate checker).1 := by rw [checkCast_same same]
    rw [passed]
    show _ = isStorage (checkCast _ _).node.type _
    rw [kept]
    exact inner (by rw [same]; nofun)
  · have whole : cast.bare checker = cast := by rw [bare, if_neg same]
    have heard : (operand.elaborate checker).1.type ≠ .error := by
      intro reported
      -- What has been reported is handed on as it is.
      apply fresh
      show (checkCast _ _).node.type = _
      simp [checkCast, reported, Ty.isError]
    rw [whole]
    exact isLvalue_checkCast same heard

/-- An expression of the source is storage exactly if its outermost operator makes storage of it, once
the casts that do nothing are taken away. -/
theorem isLvalue_elaborate {rung : Rung} {start rest : List Token} {phrase : Phrase}
    (checker : Checker) : Derives rung start phrase rest →
    (phrase.elaborate checker).1.type ≠ .error →
    (phrase.elaborate checker).1.isLvalue =
      (phrase.bare checker).isStorage (phrase.elaborate checker).1.type
  | .binary .., _ => isLvalue_binary _ _ _
  -- Precedences and parentheses leave no trace in the phrase.
  | .tighter inner, fresh => isLvalue_elaborate checker inner fresh
  | .operand inner, fresh => isLvalue_elaborate checker inner fresh
  | .suffixed inner, fresh => isLvalue_elaborate checker inner fresh
  | .primary inner, fresh => isLvalue_elaborate checker inner fresh
  | .parenthesised _ inner _, fresh => isLvalue_elaborate checker inner fresh
  | .unary spelled _ _, _ => isLvalue_unary (fun _ same => by rw [same] at spelled; cases spelled) _ _ _
  | .sizeofType .., _ => rfl
  -- A type that is written out is scalar, so a cast that changes nothing promotes nothing.
  | .cast (.scalar _ _ _ _) inner, fresh => isLvalue_cast (isLvalue_elaborate checker inner) fresh
  | .subscript .., _ => isLvalue_checkSubscript _ _
  | .step .., _ => isLvalue_checkStep _ _
  | .literal constant, _ => by cases constant <;> rfl
  | .name _, _ => rfl
  | .callNothing .., _ => isLvalue_checkCall _ _ _
  | .call .., _ => isLvalue_checkCall _ _ _

end Phrase

/-! What the checks require. -/

/-- Converting neither makes an error nor takes one away. -/
theorem isError_convert (value : Expression) (target : Ty) :
    (value.convert target).type.isError = value.type.isError := by
  unfold Expression.convert
  split
  · next narrows =>
    -- Only numbers are truncated, to numbers.
    simp only [Expression.narrows, Bool.or_eq_true, Bool.and_eq_true, decide_eq_true_eq] at narrows
    rcases narrows with ⟨source, rfl⟩ | ⟨source, rfl | rfl⟩ <;> rw [source] <;> rfl
  · split
    · rfl
    · exact Expression.isError_extend _ _

/-- The left side of an assignment is complained about exactly if it is no storage, while nothing has
been reported on either side. -/
theorem checkAssign_lvalueRequired {left : Expression} (fresh : left.type ≠ .error)
    (right : Expression) : (checkAssign left right).problem? = some .lvalueRequired ↔
      right.type ≠ .error ∧ left.isLvalue = false := by
  have clean : left.type.isError = false := Bool.eq_false_iff.mpr (mt Ty.isError_iff.mp fresh)
  simp only [checkAssign, clean, isError_convert, Bool.false_or]
  by_cases reported : right.type = .error
  · simp [reported, Ty.isError]
  · have heard : right.type.isError = false := Bool.eq_false_iff.mpr (mt Ty.isError_iff.mp reported)
    cases storage : left.isLvalue with
    | false => simp [heard, reported]
    | true =>
      -- Of storage at most the types are complained about.
      have other : (if left.type.compatible (right.convert left.type).type then none
          else some (Problem.invalidOperands "=")) ≠ some .lvalueRequired := by
        split <;> simp
      simp [heard, other]

/-- An expression of the source that has not been reported may have its address taken, be stepped and be
stored to without a complaint that storage is required, exactly if its outermost operator makes storage
of it, once the casts are taken away that leave the type as it is; an assignment of what has been
reported complains of nothing. -/
theorem storage_required {rung : Rung} {start rest : List Token} {phrase : Phrase}
    (derives : Phrase.Derives rung start phrase rest) (checker : Checker)
    (fresh : (phrase.elaborate checker).1.type ≠ .error) :
    let operand := (phrase.elaborate checker).1
    let storage := (phrase.bare checker).isStorage operand.type
    (checkAddress operand).problem? = (if storage then none else some .lvalueRequired) ∧
    (∀ op, (checkStep op operand).problem? = if storage then none else some .lvalueRequired) ∧
    ∀ value, (checkAssign operand value).problem? = some .lvalueRequired ↔
      value.type ≠ .error ∧ storage = false := by
  intro operand storage
  have flagged : operand.isLvalue = storage := Phrase.isLvalue_elaborate checker derives fresh
  have required : lvalueProblem? operand = if storage then none else some .lvalueRequired := by
    have clean : operand.type.isError = false := Bool.eq_false_iff.mpr (mt Ty.isError_iff.mp fresh)
    simp [lvalueProblem?, clean, flagged]
  refine ⟨required, fun _ => required, fun value => ?_⟩
  rw [← flagged]
  exact checkAssign_lvalueRequired fresh value

/-- A truncated variable is no storage. -/
theorem storage_required_truncated :
    let checker := (Checker.declareVariable "x" .int {}).2
    let phrase := Phrase.unary (.cast .char) (.name "x")
    let operand := (phrase.elaborate checker).1
    (∃ read rest, tokens "(char) x" = .ok read ∧ Phrase.Derives .prefixed read phrase rest) ∧
      operand.type = .char ∧ (checkAddress operand).problem? = some .lvalueRequired ∧
      (checkStep .increment operand).problem? = some .lvalueRequired ∧
      (checkAssign operand (.int 1)).problem? = some .lvalueRequired := by
  intro checker phrase operand
  have read : tokens "(char) x" = .ok [⟨.leftParen, "(", ⟨1, 1⟩⟩, ⟨.specifier .char, "char", ⟨1, 2⟩⟩,
      ⟨.rightParen, ")", ⟨1, 6⟩⟩, ⟨.identifier, "x", ⟨1, 8⟩⟩, .atEnd ⟨1, 9⟩] := by cbv
  have derives : Phrase.Derives .prefixed [⟨.leftParen, "(", ⟨1, 1⟩⟩,
      ⟨.specifier .char, "char", ⟨1, 2⟩⟩, ⟨.rightParen, ")", ⟨1, 6⟩⟩,
      ⟨.identifier, "x", ⟨1, 8⟩⟩, .atEnd ⟨1, 9⟩] phrase [.atEnd ⟨1, 9⟩] :=
    .cast (.scalar rfl rfl (.none _) rfl) (.suffixed (.primary (.name rfl)))
  have type : operand.type = .char := by cbv
  have value : (phrase.bare checker).isStorage operand.type = false := by cbv
  obtain ⟨address, step, assign⟩ := storage_required derives checker (by rw [type]; decide)
  rw [value] at address step assign
  exact ⟨⟨_, _, read, derives⟩, type, address, step .increment, (assign _).mpr ⟨by decide, rfl⟩⟩

/-- A variable that is cast to its own type is taken for the storage that it names, although the cast is
its outermost operator. -/
theorem cast_stored :
    let checker := (Checker.declareVariable "x" .int {}).2
    let phrase := Phrase.unary (.cast .int) (.name "x")
    let operand := (phrase.elaborate checker).1
    (∃ read rest, tokens "(int) x" = .ok read ∧ Phrase.Derives .prefixed read phrase rest) ∧
      operand.type = .int ∧ phrase.isStorage operand.type = false ∧
      (checkAddress operand).problem? = none ∧ (checkStep .increment operand).problem? = none ∧
      (checkAssign operand (.int 1)).problem? = none := by
  intro checker phrase operand
  have read : tokens "(int) x" = .ok [⟨.leftParen, "(", ⟨1, 1⟩⟩, ⟨.specifier .int, "int", ⟨1, 2⟩⟩,
      ⟨.rightParen, ")", ⟨1, 5⟩⟩, ⟨.identifier, "x", ⟨1, 7⟩⟩, .atEnd ⟨1, 8⟩] := by cbv
  have derives : Phrase.Derives .prefixed [⟨.leftParen, "(", ⟨1, 1⟩⟩,
      ⟨.specifier .int, "int", ⟨1, 2⟩⟩, ⟨.rightParen, ")", ⟨1, 5⟩⟩, ⟨.identifier, "x", ⟨1, 7⟩⟩,
      .atEnd ⟨1, 8⟩] phrase [.atEnd ⟨1, 8⟩] :=
    .cast (.scalar rfl rfl (.none _) rfl) (.suffixed (.primary (.name rfl)))
  exact ⟨⟨_, _, read, derives⟩, by cbv, rfl, by cbv, by cbv, by cbv⟩

end SmallC
