import SmallC.Proofs.Scoping.Checking

/-! Phrases keep their names: the symbols of a checked expression are those of the names written
there, in order. -/

namespace SmallC

namespace Expression

/-- The symbol that a node names. -/
def symbol? : Expression → Option SymbolId
  | .identifier symbol _ | .call symbol _ _ => some symbol
  | _ => none

/-- The symbols that are named in an expression, in order. -/
def symbols (expression : Expression) : List SymbolId := expression.nodes.filterMap symbol?

/-- The symbols that are named in expressions, in order. -/
def symbolsOfList (expressions : List Expression) : List SymbolId := expressions.flatMap symbols

theorem filterMap_nodesOfList (expressions : List Expression) :
    (nodesOfList expressions).filterMap symbol? = symbolsOfList expressions := by
  induction expressions with
  | nil => rfl
  | cons first rest ih => rw [nodesOfList, List.filterMap_append, ih]; rfl

@[simp] theorem symbols_integer (value : UInt32) (type : Ty) : (integer value type).symbols = [] := by
  simp [symbols, nodes, symbol?]

@[simp] theorem symbols_real (spelling : String) : (real spelling).symbols = [] := by
  simp [symbols, nodes, symbol?]

@[simp] theorem symbols_string (text : String) : (string text).symbols = [] := by
  simp [symbols, nodes, symbol?]

@[simp] theorem symbols_identifier (symbol : SymbolId) (type : Ty) :
    (identifier symbol type).symbols = [symbol] := by
  simp [symbols, nodes, symbol?]

@[simp] theorem symbols_call (callee : SymbolId) (arguments : List Expression) (type : Ty) :
    (call callee arguments type).symbols = callee :: symbolsOfList arguments := by
  simp [symbols, nodes, symbol?, filterMap_nodesOfList]

@[simp] theorem symbols_unary (op : UnaryOp) (operand : Expression) (type : Ty) :
    (unary op operand type).symbols = operand.symbols := by
  rw [symbols, nodes]
  rfl

@[simp] theorem symbols_step (op : StepOp) (scale : Nat) (operand : Expression) (type : Ty) :
    (step op scale operand type).symbols = operand.symbols := by
  rw [symbols, nodes]
  rfl

@[simp] theorem symbols_binary (op : BinaryOp) (left right : Expression) (type : Ty) :
    (binary op left right type).symbols = left.symbols ++ right.symbols := by
  rw [symbols, nodes, List.filterMap_cons_none rfl, List.filterMap_append]
  rfl

/-! Conversions name nothing. -/

@[simp] theorem symbols_promote (operand : Expression) : operand.promote.symbols = operand.symbols := by
  unfold promote
  split
  · simp
  · split <;> simp

@[simp] theorem symbols_widen (operand : Expression) : operand.widen.symbols = operand.symbols := by
  unfold widen
  split <;> simp

@[simp] theorem symbols_extend (operand : Expression) (other : Ty) :
    (operand.extend other).symbols = operand.symbols := by
  unfold extend
  split <;> simp

@[simp] theorem symbols_convert (operand : Expression) (target : Ty) :
    (operand.convert target).symbols = operand.symbols := by
  unfold convert
  split
  · simp
  · split <;> simp

end Expression

/-! Checks keep the symbols of their operands, or drop some of them. -/

theorem symbols_checkUnary (op : UnaryOp) (sign : String) (rule : Ty → Option Ty)
    (operand : Expression) : (checkUnary op sign rule operand).node.symbols = operand.symbols := by
  unfold checkUnary
  dsimp only
  split
  · simp
  · split <;> simp

theorem symbols_checkCast (target : Ty) (operand : Expression) :
    (checkCast target operand).node.symbols = operand.symbols := by
  unfold checkCast
  dsimp only
  repeat' split
  all_goals simp

theorem symbols_checkStep (op : StepOp) (operand : Expression) :
    (checkStep op operand).node.symbols = operand.symbols := by
  unfold checkStep
  dsimp only
  split <;> simp

/-- A size is that of the operand's type, so its names are dropped. -/
theorem UnarySign.symbols_check (sign : UnarySign) (operand : Expression) :
    (sign.check operand).node.symbols.Sublist operand.symbols := by
  cases sign with
  | not | negate | dereference => exact symbols_checkUnary _ _ _ operand ▸ .refl _
  | address => simp [check, checkAddress]
  | sizeof => simp [check, checkSizeof, sizeofType, Expression.int]
  | cast target => exact symbols_checkCast target operand ▸ .refl _

theorem symbols_judge (plain : BinaryOp) (sign : String) (rule : Ty → Ty → Option (BinaryOp × Ty))
    (left right : Expression) :
    (judge plain sign rule left right).node.symbols = left.symbols ++ right.symbols := by
  unfold judge
  split
  · simp
  · split <;> simp

theorem symbols_judgeExtended (plain : BinaryOp) (sign : String)
    (rule : Ty → Ty → Option (BinaryOp × Ty)) (left right : Expression) :
    (judgeExtended plain sign rule left right).node.symbols = left.symbols ++ right.symbols := by
  simp [judgeExtended, symbols_judge]

theorem symbols_judgePromoted (plain : BinaryOp) (sign : String)
    (rule : Ty → Ty → Option (BinaryOp × Ty)) (left right : Expression) :
    (judgePromoted plain sign rule left right).node.symbols = left.symbols ++ right.symbols := by
  simp [judgePromoted, symbols_judge]

theorem BinarySign.symbols_check (sign : BinarySign) (left right : Expression) :
    (sign.check left right).node.symbols = left.symbols ++ right.symbols := by
  cases sign with
  | or | and | modulo => exact symbols_judgePromoted _ _ _ left right
  | _ => exact symbols_judgeExtended _ _ _ left right

/-- A subscript that is not one drops its index. -/
theorem symbols_checkSubscript (left right : Expression) :
    (checkSubscript left right).node.symbols.Sublist (left.symbols ++ right.symbols) := by
  unfold checkSubscript
  dsimp only
  split
  · simp
  · split <;> simp

theorem symbols_checkCall (callee : SymbolId) (type : Ty) (arguments : List Expression) :
    (checkCall callee type arguments).node.symbols =
      callee :: Expression.symbolsOfList arguments := by
  have promoted : Expression.symbolsOfList (arguments.map Expression.promote) =
      Expression.symbolsOfList arguments := by
    simp [Expression.symbolsOfList, List.flatMap_map]
  unfold checkCall
  dsimp only
  repeat' split
  all_goals simp [promoted]

theorem symbols_checkTest (operand : Expression) :
    (checkTest operand).node.symbols = operand.symbols := by
  simp [checkTest]

/-! Phrases are walked along while they are checked. -/

theorem Constant.symbols {token : Token} {value : Expression} (constant : Constant token value) :
    value.symbols = [] := by
  cases constant <;> simp [Expression.int]

namespace Phrase

/-- Wherever a phrase is checked, its names are walked along. -/
def Traced (phrase : Phrase) : Prop :=
  ∀ checker : Checker, checker.scoping.Proper →
    checker.Traces (phrase.elaborate checker).2 (phrase.elaborate checker).1.symbols
      (phrase.uses checker.scoping)

/-- Wherever phrases are checked in order, their names are walked along. -/
def TracedAll (phrases : List Phrase) : Prop :=
  ∀ checker : Checker, checker.scoping.Proper →
    checker.Traces (elaborateAll phrases checker).2
      (Expression.symbolsOfList (elaborateAll phrases checker).1) (usesAll phrases checker.scoping)

/-- After a phrase the same scopes are open. -/
theorem Traced.proper {phrase : Phrase} (traced : phrase.Traced) {checker : Checker}
    (proper : checker.scoping.Proper) : (phrase.elaborate checker).2.scoping.Proper := by
  rw [(traced checker proper).scoping]
  exact proper.returns (phrase.stays_uses _ proper).1

theorem traced_literal {token : Token} {value : Expression} (constant : Constant token value) :
    (literal value).Traced := by
  intro checker proper
  rw [elaborate, uses]
  exact constant.symbols ▸ .nothing checker

theorem traced_name (spelling : String) : (name spelling).Traced := by
  intro checker proper
  have traces := Checker.traces_resolve proper spelling
  rw [elaborate, uses]
  refine traces.less ?_ rfl
  exact Expression.symbols_identifier _ _ ▸ .refl _

theorem traced_unary (sign : UnarySign) {operand : Phrase} (traced : operand.Traced) :
    (unary sign operand).Traced := by
  intro checker proper
  rw [elaborate, uses]
  exact (traced checker proper).less (sign.symbols_check _) (Checker.symbols_record _ _)

theorem traced_sizeofType (type : Ty) : (sizeofType type).Traced := by
  intro checker proper
  rw [elaborate, uses]
  refine (Checker.Traces.nothing checker).less ?_ rfl
  exact (Expression.symbols_integer _ _).symm ▸ .refl _

theorem traced_step (op : StepOp) {operand : Phrase} (traced : operand.Traced) :
    (step op operand).Traced := by
  intro checker proper
  rw [elaborate, uses]
  refine (traced checker proper).less ?_ (Checker.symbols_record _ _)
  exact symbols_checkStep op (operand.elaborate checker).1 ▸ .refl _

theorem traced_subscript {array index : Phrase} (first : array.Traced) (second : index.Traced) :
    (subscript array index).Traced := by
  intro checker proper
  have traces := (first checker proper).both (second _ (first.proper proper))
  rw [elaborate, uses]
  exact traces.less (symbols_checkSubscript _ _) (Checker.symbols_record _ _)

theorem traced_binary (sign : BinarySign) {left right : Phrase} (first : left.Traced)
    (second : right.Traced) : (binary sign left right).Traced := by
  intro checker proper
  have traces := (first checker proper).both (second _ (first.proper proper))
  rw [elaborate, uses]
  exact traces.less (sign.symbols_check _ _ ▸ .refl _) (Checker.symbols_record _ _)

theorem traced_call (callee : String) {arguments : List Phrase} (passed : TracedAll arguments) :
    (call callee arguments).Traced := by
  intro checker proper
  have resolved := Checker.traces_resolve proper callee
  have stays := (Scoped.stays_use callee checker.scoping proper).1
  have traces := resolved.both (passed _ (resolved.scoping ▸ proper.returns stays))
  rw [elaborate, uses]
  refine traces.less ?_ (Checker.symbols_record _ _)
  exact symbols_checkCall _ _ _ ▸ .refl _

theorem tracedAll_nil : TracedAll [] := by
  intro checker proper
  rw [elaborateAll, usesAll]
  exact .nothing checker

theorem tracedAll_cons {first : Phrase} {rest : List Phrase} (head : first.Traced)
    (tail : TracedAll rest) : TracedAll (first :: rest) := by
  intro checker proper
  have traces := (head checker proper).both (tail _ (head.proper proper))
  rw [elaborateAll, usesAll]
  exact traces

mutual

/-- The names of every phrase of the grammar are walked along. -/
theorem Derives.traced {rung : Rung} {start rest : List Token} {phrase : Phrase} :
    Derives rung start phrase rest → phrase.Traced
  | .binary first _ _ second => traced_binary _ first.traced second.traced
  | .tighter inner | .operand inner | .suffixed inner | .primary inner => inner.traced
  | .unary _ _ inner | .cast _ inner => traced_unary _ inner.traced
  | .sizeofType _ _ => traced_sizeofType _
  | .subscript first _ second _ => traced_subscript first.traced second.traced
  | .step first _ => traced_step _ first.traced
  | .parenthesised _ inner _ => inner.traced
  | .literal constant => traced_literal constant
  | .name _ => traced_name _
  | .callNothing _ _ _ => traced_call _ tracedAll_nil
  | .call _ _ passed _ => traced_call _ (Derives.traced_commas passed)

theorem Derives.traced_commas {start rest : List Token} {phrases : List Phrase} :
    Commas (Derives .expression) start phrases rest → TracedAll phrases
  | .one head => tracedAll_cons head.traced tracedAll_nil
  | .more head _ tail => tracedAll_cons head.traced (Derives.traced_commas tail)

end

end Phrase

end SmallC
