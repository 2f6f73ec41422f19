import SmallC.Proofs.Derivations.Units
import SmallC.Proofs.Scoping.Checking
import SmallC.Proofs.Typing.Growth

/-! Bodies of functions: what is checked inside a function leaves the unit as it is. -/

namespace SmallC

/-- A verdict says nothing of a second body. -/
def Verdict.Local {α : Type} (verdict : Verdict α) : Prop :=
  ∀ name, verdict.problem? ≠ some (.redefinition name)

namespace Checker

/-- What has been declared in the unit, in order. -/
def unit (checker : Checker) : List (String × Ty) :=
  (checker.symbols.symbolsOf unitScope).map Symbol.declaration

/-- How often a function has been reported for a further body. -/
def redefinitions (checker : Checker) (name : String) : Nat :=
  checker.reports.countP (·.problem = .redefinition name)

/-- The unit is as it was: nothing has been declared or defined there, and no further body has been
reported. -/
structure Leaves (old new : Checker) : Prop where
  /-- Nothing has been declared in the unit. -/
  unit : new.unit = old.unit
  /-- No function has been given a body. -/
  defined : new.defined = old.defined
  /-- No further body has been reported. -/
  redefinitions : ∀ name, new.redefinitions name = old.redefinitions name
  /-- Reports are never taken back. -/
  quiet : new.reports = [] → old.reports = []
  /-- Scopes keep their numbers. -/
  opened : old.symbols.scopes.length ≤ new.symbols.scopes.length

/-- The checker is inside a function, where the innermost scope is not that of the unit. -/
structure Inside (checker : Checker) : Prop where
  /-- Declarations go to another scope than that of the unit. -/
  inner : checker.current ≠ unitScope
  /-- The scope of the unit has been opened. -/
  rooted : unitScope < checker.symbols.scopes.length

variable {old new checker : Checker}

theorem Leaves.refl (checker : Checker) : checker.Leaves checker :=
  ⟨rfl, rfl, fun _ => rfl, id, Nat.le_refl _⟩

theorem Leaves.trans {middle : Checker} (early : old.Leaves middle) (late : middle.Leaves new) :
    old.Leaves new :=
  ⟨late.unit.trans early.unit, late.defined.trans early.defined,
    fun name => (late.redefinitions name).trans (early.redefinitions name),
    fun silent => early.quiet (late.quiet silent), Nat.le_trans early.opened late.opened⟩

/-- Where the same scopes are open, the checker is still inside. -/
theorem Inside.later (inside : old.Inside) (leaves : old.Leaves new)
    (active : new.symbols.active = old.symbols.active) : new.Inside := by
  refine ⟨?_, Nat.lt_of_lt_of_le inside.rooted leaves.opened⟩
  have same : new.current = old.current := by
    unfold current SymbolTable.current?
    rw [active]
  exact same ▸ inside.inner

/-- One more report counts where it is of a further body. -/
theorem redefinitions_report (checker : Checker) (problem : Problem) (name : String) :
    (checker.report problem).redefinitions name =
      checker.redefinitions name + if problem = .redefinition name then 1 else 0 := by
  simp [redefinitions, report, List.countP_append, List.countP_singleton]

theorem leaves_report {problem : Problem} (other : ∀ name, problem ≠ .redefinition name) :
    checker.Leaves (checker.report problem) := by
  refine ⟨rfl, rfl, fun name => ?_, fun silent => ?_, Nat.le_refl _⟩
  · rw [redefinitions_report, if_neg (other name)]
    rfl
  · simp [report] at silent

theorem leaves_record {α : Type} {verdict : Verdict α} (other : verdict.Local) :
    checker.Leaves (checker.record verdict).2 := by
  unfold record
  cases found : verdict.problem? with
  | none => exact .refl _
  | some problem => exact leaves_report fun name same => other name (found.trans (congrArg _ same))

/-- What is entered into another scope is not in the unit. -/
theorem leaves_enter {scope : ScopeId} (inner : scope ≠ unitScope) (name : String) (type : Ty) :
    checker.Leaves (checker.enter scope name type).2 := by
  refine ⟨?_, rfl, fun _ => rfl, id, ?_⟩
  · unfold unit enter SymbolTable.insert
    dsimp only
    -- The table changes in one scope only.
    rw [SymbolTable.symbolsOf_modifySymbols, if_neg fun same => inner same.1]
  · simp [enter, SymbolTable.insert, SymbolTable.modifySymbols]

theorem leaves_openScope (checker : Checker) : checker.Leaves checker.openScope.2 := by
  refine ⟨?_, rfl, fun _ => rfl, id, ?_⟩
  · unfold unit openScope
    dsimp only
    rw [SymbolTable.symbolsOf_openScope]
  · simp [openScope, SymbolTable.openScope]

theorem leaves_closeScope (checker : Checker) : checker.Leaves checker.closeScope.2 :=
  ⟨rfl, rfl, fun _ => rfl, id, Nat.le_refl _⟩

/-- The scope that is opened is not that of the unit. -/
theorem inside_openScope (rooted : unitScope < checker.symbols.scopes.length) :
    checker.openScope.2.Inside := by
  refine ⟨?_, Nat.lt_of_lt_of_le rooted (leaves_openScope checker).opened⟩
  show checker.symbols.scopes.length ≠ unitScope
  exact Nat.ne_of_gt rooted

theorem leaves_declareVariable (inside : checker.Inside) (name : String) (type : Ty) :
    checker.Leaves (checker.declareVariable name type).2 := by
  unfold declareVariable
  dsimp only
  split
  · exact leaves_enter inside.inner name type
  · -- Inside of a function a second declaration is reported.
    rw [if_pos inside.inner]
    exact leaves_report (by simp)

theorem leaves_resolve (inside : checker.Inside) (name : String) :
    checker.Leaves (checker.resolve name).2 := by
  unfold resolve
  split
  · exact .refl _
  · -- An unknown name is reported, and then it is known where the function uses it.
    refine (leaves_report ?_).trans (leaves_enter inside.inner name .error)
    simp

end Checker

/-! No check of an expression or a statement is about bodies of functions. -/

theorem checkUnary_local (op : UnaryOp) (sign : String) (rule : Ty → Option Ty)
    (operand : Expression) : (checkUnary op sign rule operand).Local := by
  intro name
  unfold checkUnary
  dsimp only
  split
  · simp
  · split <;> simp

theorem lvalueProblem?_local (operand : Expression) (name : String) :
    lvalueProblem? operand ≠ some (.redefinition name) := by
  unfold lvalueProblem?
  split <;> simp

theorem UnarySign.check_local (sign : UnarySign) (operand : Expression) :
    (sign.check operand).Local := by
  cases sign with
  | not | negate | dereference => exact checkUnary_local _ _ _ operand
  | address => exact lvalueProblem?_local operand
  -- These two checks report no problem with a name of the unit in any branch.
  | sizeof =>
    intro name
    unfold check checkSizeof
    dsimp only
    split <;> simp
  | cast target =>
    intro name
    unfold check checkCast
    dsimp only
    repeat' split
    all_goals simp

theorem judge_local (plain : BinaryOp) (sign : String) (rule : Ty → Ty → Option (BinaryOp × Ty))
    (left right : Expression) : (judge plain sign rule left right).Local := by
  intro name
  unfold judge
  split
  · simp
  · split <;> simp

theorem BinarySign.check_local (sign : BinarySign) (left right : Expression) :
    (sign.check left right).Local := by
  -- Every operator is judged once its operands have been extended or promoted.
  cases sign <;> exact judge_local _ _ _ _ _

theorem checkSubscript_local (left right : Expression) : (checkSubscript left right).Local := by
  intro name
  unfold checkSubscript
  dsimp only
  split
  · simp
  · split <;> simp

theorem checkCall_local (callee : SymbolId) (type : Ty) (arguments : List Expression) :
    (checkCall callee type arguments).Local := by
  intro name
  unfold checkCall
  dsimp only
  repeat' split
  all_goals simp

theorem checkTest_local (operand : Expression) : (checkTest operand).Local := by
  intro name
  unfold checkTest
  dsimp only
  split <;> simp

theorem checkAssign_local (left right : Expression) : (checkAssign left right).Local := by
  intro name
  unfold checkAssign
  dsimp only
  repeat' split
  all_goals simp

theorem checkReturn_local (returned : Ty) (operand : Expression) :
    (checkReturn returned operand).Local := by
  intro name
  unfold checkReturn
  dsimp only
  split <;> simp

theorem checkBreak_local (loops : Nat) : (checkBreak loops).Local := by
  intro name
  unfold checkBreak
  dsimp only
  split <;> simp

/-! Steps of checking inside of functions. -/

/-- A step that leaves the unit as it is and the same scopes open, wherever it is taken inside of a
function. -/
def Checking.Local {α : Type} (step : Checking α) : Prop :=
  ∀ checker : Checker, checker.Inside → checker.Leaves (step checker).2 ∧
    (step checker).2.symbols.active = checker.symbols.active

namespace Checking

variable {α β : Type} {step : Checking α}

theorem local_pure (value : α) : Local (pure value) :=
  fun checker _ => ⟨.refl checker, rfl⟩

/-- One step after the other. -/
theorem Local.bind (first : Local step) {next : α → Checking β}
    (second : ∀ value, Local (next value)) : Local (step >>= next) := by
  intro checker inside
  -- The second step starts inside, because the first one has left the same scopes open.
  obtain ⟨early, active⟩ := first checker inside
  obtain ⟨late, same⟩ := second (step checker).1 (step checker).2 (inside.later early active)
  exact ⟨early.trans late, same.trans active⟩

theorem Local.discard (first : Local step) : Local (discard step) :=
  fun checker inside => first checker inside

theorem local_get : Local (get : Checking Checker) :=
  fun checker _ => ⟨.refl checker, rfl⟩

theorem local_record {verdict : Verdict α} (other : verdict.Local) :
    Local (Checker.record verdict) :=
  fun checker _ => ⟨Checker.leaves_record other,
    congrArg SymbolTable.active (Checker.symbols_record verdict checker)⟩

theorem local_resolve (name : String) : Local (Checker.resolve name) :=
  fun checker inside => ⟨Checker.leaves_resolve inside name,
    (Checker.extends_resolve name checker).active⟩

theorem local_declareVariable (name : String) (type : Ty) :
    Local (Checker.declareVariable name type) :=
  fun checker inside => ⟨Checker.leaves_declareVariable inside name type,
    (Checker.extends_declareVariable checker name type).active⟩

theorem local_mapM {item : β → Checking α} (each : ∀ thing, Local (item thing)) (things : List β) :
    Local (things.mapM' item) := by
  induction things with
  | nil => exact local_pure _
  | cons first rest ih => exact (each first).bind fun _ => ih.bind fun _ => local_pure _

/-- What is done in a scope of its own ends with the scope. -/
theorem Local.scoped {next : ScopeId → Checking β} (inner : ∀ scope, Local (next scope)) :
    Local (do
      let scope ← Checker.openScope
      let value ← next scope
      Functor.discard Checker.closeScope
      return value) := by
  intro checker inside
  have opening := Checker.leaves_openScope checker
  obtain ⟨leaves, active⟩ := inner checker.openScope.1 checker.openScope.2
    (Checker.inside_openScope inside.rooted)
  exact ⟨opening.trans (leaves.trans (Checker.leaves_closeScope _)), congrArg List.tail active⟩

end Checking

open Checking

theorem Declaration.local_elaborate (declaration : Declaration) :
    Local declaration.elaborate := by
  have each (declarator : Declarator) : Local (declarator.elaborate declaration.specifier) :=
    (local_declareVariable declarator.name _).discard
  exact (local_mapM each _).discard

theorem Parameter.local_elaborate (parameter : Parameter) : Local parameter.elaborate :=
  (local_declareVariable parameter.name _).discard.bind fun _ => local_pure _

namespace Phrase

mutual

/-- A phrase inside of a function leaves the unit as it is. -/
theorem local_elaborate : (phrase : Phrase) → Local phrase.elaborate
  | .literal value => by
    rw [elaborate]
    exact local_pure _
  | .name spelling => by
    rw [elaborate]
    exact (local_resolve spelling).bind fun _ => local_get.bind fun _ => local_pure _
  | .call callee arguments => by
    rw [elaborate]
    refine (local_resolve callee).bind fun symbol => (local_elaborateAll arguments).bind ?_
    -- The type of the callee is looked up in the table that the arguments have left.
    intro values checker
    exact local_record (checkCall_local symbol _ values) checker
  | .unary sign operand => by
    rw [elaborate]
    exact operand.local_elaborate.bind fun value => local_record (sign.check_local value)
  | .sizeofType type => by
    rw [elaborate]
    exact local_pure _
  | .subscript array index => by
    rw [elaborate]
    exact array.local_elaborate.bind fun left => index.local_elaborate.bind fun right =>
      local_record (checkSubscript_local left right)
  | .step op operand => by
    rw [elaborate]
    exact operand.local_elaborate.bind fun value => local_record (lvalueProblem?_local value)
  | .binary sign left right => by
    rw [elaborate]
    exact left.local_elaborate.bind fun first => right.local_elaborate.bind fun second =>
      local_record (sign.check_local first second)

theorem local_elaborateAll : (phrases : List Phrase) → Local (elaborateAll phrases)
  | [] => by
    rw [elaborateAll]
    exact local_pure _
  | first :: rest => by
    rw [elaborateAll]
    exact first.local_elaborate.bind fun _ => (local_elaborateAll rest).bind fun _ => local_pure _

end

end Phrase

namespace Clause

theorem local_elaborateTest (test : Phrase) : Local (elaborateTest test) :=
  test.local_elaborate.bind fun value => local_record (checkTest_local value)

/-- The loops around a statement do not matter for the unit. -/
theorem local_elaborateTurn {α : Type} {body : Checking α} (turn : Local body) :
    Local (elaborateTurn body) := by
  -- Both changes are to the count of loops alone.
  have stay (change : Checker → Checker)
      (leaves : ∀ checker : Checker, checker.Leaves (change checker))
      (active : ∀ checker, (change checker).symbols.active = checker.symbols.active) :
      Local (modify change : Checking PUnit) :=
    fun checker _ => ⟨leaves checker, active checker⟩
  have entered := stay Checker.enterLoop
    (fun _ => ⟨rfl, rfl, fun _ => rfl, id, Nat.le_refl _⟩) fun _ => rfl
  have left := stay Checker.leaveLoop
    (fun _ => ⟨rfl, rfl, fun _ => rfl, id, Nat.le_refl _⟩) fun _ => rfl
  exact entered.bind fun _ => turn.bind fun _ => left.bind fun _ => local_pure _

mutual

/-- A statement inside of a function leaves the unit as it is. -/
theorem local_elaborate : (clause : Clause) → Local clause.elaborate
  | .evaluate value => by
    rw [elaborate]
    exact value.local_elaborate.bind fun _ => local_pure _
  | .assign left right => by
    rw [elaborate]
    exact left.local_elaborate.bind fun place => right.local_elaborate.bind fun value =>
      local_record (checkAssign_local place value)
  | .breakLoop => by
    rw [elaborate]
    exact local_get.bind fun checker => local_record (checkBreak_local checker.loops)
  | .returnValue value => by
    rw [elaborate]
    exact value.local_elaborate.bind fun value => local_get.bind fun checker =>
      local_record (checkReturn_local checker.returned value)
  | .block declared body => by
    rw [elaborate]
    -- Declarations and statements stand in the scope that the block opens and closes.
    have inner : Local (do
        Functor.discard (declared.mapM' Declaration.elaborate)
        elaborateAll body) :=
      (local_mapM Declaration.local_elaborate declared).discard.bind fun _ =>
        local_elaborateAll body
    intro checker inside
    exact Local.scoped (fun scope => inner.bind fun body => local_pure (Statement.block scope body))
      checker inside
  | .whileLoop test body => by
    rw [elaborate]
    exact (local_elaborateTest test).bind fun _ =>
      (local_elaborateTurn body.local_elaborate).bind fun _ => local_pure _
  | .forLoop init test increment body => by
    rw [elaborate]
    exact init.local_elaborate.bind fun _ => (local_elaborateTest test).bind fun _ =>
      increment.local_elaborate.bind fun _ =>
        (local_elaborateTurn body.local_elaborate).bind fun _ => local_pure _
  | .ifThen test body => by
    rw [elaborate]
    exact (local_elaborateTest test).bind fun _ => body.local_elaborate.bind fun _ => local_pure _
  | .ifElse test body otherwise => by
    rw [elaborate]
    exact (local_elaborateTest test).bind fun _ => body.local_elaborate.bind fun _ =>
      otherwise.local_elaborate.bind fun _ => local_pure _

theorem local_elaborateAll : (clauses : List Clause) → Local (elaborateAll clauses)
  | [] => by
    rw [elaborateAll]
    exact local_pure _
  | first :: rest => by
    rw [elaborateAll]
    exact first.local_elaborate.bind fun _ => (local_elaborateAll rest).bind fun _ => local_pure _

end

end Clause

end SmallC
