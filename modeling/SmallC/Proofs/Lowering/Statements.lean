import SmallC.Lowering.Units
import SmallC.Proofs.Lowering.Shape

/-! Lowering statements and functions changes nothing about symbols but their places. -/

namespace SmallC

namespace Statement

/-- Statements are built from the statements inside them. -/
theorem inductionOn {motive : Statement → Prop}
    (evaluate : ∀ value, motive (.evaluate value))
    (assign : ∀ left right, motive (.assign left right))
    (breakLoop : motive .breakLoop)
    (returnValue : ∀ value, motive (.returnValue value))
    (block : ∀ scope body, (∀ statement ∈ body, motive statement) → motive (.block scope body))
    (whileLoop : ∀ test body, motive body → motive (.whileLoop test body))
    (forLoop : ∀ init test increment body, motive init → motive increment → motive body →
      motive (.forLoop init test increment body))
    (ifThen : ∀ test body, motive body → motive (.ifThen test body))
    (ifElse : ∀ test body otherwise, motive body → motive otherwise →
      motive (.ifElse test body otherwise))
    (statement : Statement) : motive statement := by
  -- The recursor carries the statements of a block along as a list.
  refine @Statement.rec motive (fun body => ∀ statement ∈ body, motive statement) evaluate assign
    breakLoop returnValue block whileLoop forLoop ifThen ifElse ?nil ?cons statement
  case nil => simp
  case cons =>
    intro first rest head tail statement member
    rcases List.mem_cons.mp member with rfl | member
    · exact head
    · exact tail statement member

/-- Statements that each make progress make it together. -/
theorem advancesAll_of {statements : List Statement} {exits : Exits}
    (each : ∀ statement ∈ statements, ∀ progress : Progress,
      progress.Advances (statement.after exits progress)) (progress : Progress) :
    progress.Advances (afterAll exits statements progress) := by
  induction statements generalizing progress with
  | nil => exact .refl _
  | cons first rest ih =>
    unfold afterAll
    rw [lowerAll_cons]
    exact (each first (by simp) progress).trans
      (ih (fun statement member => each statement (by simp [member])) _)

/-- Lowering a statement is progress. -/
theorem advances (statement : Statement) (exits : Exits) (progress : Progress) :
    progress.Advances (statement.after exits progress) := by
  -- Every step of lowering a statement is progress, so their chain is.
  have fresh (progress : Progress) := progress.evaluates_skip.toAdvances
  have tested (test : Expression) (progress : Progress) := (test.evaluates progress).toAdvances
  induction statement using inductionOn generalizing exits progress with
  | evaluate value =>
    unfold after
    rw [lower_evaluate]
    exact tested _ _
  | assign left right =>
    unfold after
    rw [lower_assign]
    exact (tested _ _).trans (left.evaluates_located _).toAdvances
  | breakLoop =>
    unfold after
    rw [lower_breakLoop]
    exact .refl _
  | returnValue value =>
    unfold after
    rw [lower_returnValue]
    exact tested _ _
  | block scope body each =>
    unfold after
    rw [lower_block]
    exact (progress.advances_bind scope).trans
      (advancesAll_of (fun statement member => each statement member exits) _)
  | whileLoop test body turn =>
    unfold after
    rw [lower_whileLoop]
    exact (fresh _).trans ((fresh _).trans ((tested _ _).trans (turn _ _)))
  | forLoop init test increment body start next turn =>
    unfold after
    rw [lower_forLoop]
    exact (fresh _).trans ((fresh _).trans ((start _ _).trans ((tested _ _).trans
      ((turn _ _).trans (next _ _)))))
  | ifThen test body taken =>
    unfold after
    rw [lower_ifThen]
    exact (fresh _).trans ((tested _ _).trans (taken _ _))
  | ifElse test body otherwise taken other =>
    unfold after
    rw [lower_ifElse]
    exact (fresh _).trans ((tested _ _).trans ((taken _ _).trans ((fresh _).trans (other _ _))))

/-- Lowering statements in order is progress. -/
theorem advancesAll (statements : List Statement) (exits : Exits) (progress : Progress) :
    progress.Advances (afterAll exits statements progress) :=
  advancesAll_of (fun statement _ => statement.advances exits) progress

end Statement

/-- Where a function's body starts to be lowered: its symbols are placed and its end has a label. -/
def Function.entry (function : Function) (symbols : SymbolTable) (nextLabel : Nat) : Progress :=
  let bound := Frame.bindLocals {} function.scope function.parameters
    (Frame.bindParameters function.scope function.parameters symbols)
  { symbols := bound.2, nextLabel := nextLabel + 1, frame := bound.1 }

/-- Placing the symbols of a function changes nothing else about them. -/
theorem Function.alike_entry (function : Function) (symbols : SymbolTable) (nextLabel : Nat) :
    symbols.Alike (function.entry symbols nextLabel).symbols :=
  (Frame.alike_bindParameters _ _ _).trans (Frame.alike_bindLocals _ _ _ _)

/-- The code of a function's body, the label standing for its end. -/
def Function.bodyCode (function : Function) (symbols : SymbolTable) (nextLabel : Nat) : Code :=
  Statement.loweredAll { function := ⟨nextLabel⟩ } function.body (function.entry symbols nextLabel)

/-- What has been handed out after a function's body. -/
def Function.last (function : Function) (symbols : SymbolTable) (nextLabel : Nat) : Progress :=
  Statement.afterAll { function := ⟨nextLabel⟩ } function.body (function.entry symbols nextLabel)

/-- A function is written behind what is there, its body between prologue and epilogue. -/
theorem generateFunction_eq (function : Function) (symbols : SymbolTable) (generated : Generated) :
    generateFunction function symbols generated =
      let name := symbols.nameOf function.symbol
      let last := function.last symbols generated.nextLabel
      (last.symbols,
        { items := generated.items ++ (prologue name
            ++ function.bodyCode symbols generated.nextLabel
            ++ epilogue name ⟨generated.nextLabel⟩ last.frame ++ literalItems last.literals)
          nextLabel := last.nextLabel }) := rfl

/-- Writing a function changes at most the places of symbols. -/
theorem generateFunction_alike (function : Function) (symbols : SymbolTable)
    (generated : Generated) : symbols.Alike (generateFunction function symbols generated).1 := by
  -- Parameters and variables are placed, and then the body is lowered.
  have placed := function.alike_entry symbols generated.nextLabel
  have body := Statement.advancesAll function.body { function := ⟨generated.nextLabel⟩ }
    (function.entry symbols generated.nextLabel)
  exact placed.trans body.alike

end SmallC
