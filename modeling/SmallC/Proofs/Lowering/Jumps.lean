import SmallC.Proofs.Lowering.Statements

/-! Jumps: the code of a statement goes to its own labels, to the end of the innermost loop around
it, or to the end of the function. -/

namespace SmallC

/-- The label that an argument of an instruction names as a target. -/
def Argument.target? : Argument → Option Label
  | .target label => some label
  | _ => none

/-- The labels that an item may jump to. -/
def Item.targets : Item → List Label
  | .code instruction =>
    if instruction.opcode.jumps then instruction.arguments.filterMap Argument.target? else []
  | _ => []

/-- Code that jumps to no labels but the given ones. -/
def JumpsWithin (known : Label → Prop) (code : List Item) : Prop :=
  ∀ item ∈ code, ∀ label ∈ item.targets, known label

section Within

variable {known : Label → Prop}

theorem JumpsWithin.mono {others : Label → Prop} {code : List Item} (jumps : JumpsWithin known code)
    (implies : ∀ label, known label → others label) : JumpsWithin others code :=
  fun item member label listed => implies label (jumps item member label listed)

@[simp] theorem jumpsWithin_nil : JumpsWithin known [] := by simp [JumpsWithin]

@[simp] theorem jumpsWithin_append {first second : List Item} :
    JumpsWithin known (first ++ second) ↔ JumpsWithin known first ∧ JumpsWithin known second :=
  List.forall_mem_append

@[simp] theorem jumpsWithin_mark {label : Label} {rest : List Item} :
    JumpsWithin known (.mark label :: rest) ↔ JumpsWithin known rest := by
  simp [JumpsWithin, Item.targets]

/-- Only a jump goes elsewhere than onward. -/
@[simp] theorem jumpsWithin_operate {opcode : Opcode} {arguments : List Argument}
    {rest : List Item} : JumpsWithin known (operate opcode arguments :: rest) ↔
      (opcode.jumps → ∀ label, .target label ∈ arguments → known label) ∧
        JumpsWithin known rest := by
  unfold JumpsWithin
  rw [List.forall_mem_cons]
  refine and_congr_left fun _ => ?_
  have listed (label : Label) : label ∈ arguments.filterMap Argument.target? ↔
      .target label ∈ arguments := by
    rw [List.mem_filterMap]
    constructor
    · rintro ⟨argument, member, here⟩
      cases argument <;> cases here
      exact member
    · exact fun member => ⟨_, member, rfl⟩
  simp only [operate, Item.targets]
  -- The targets of an instruction count only where its opcode jumps.
  split
  · next steps => simp [listed, steps]
  · next steps => simp [steps]

/-- Straight code does not jump at all. -/
theorem jumpsWithin_straight {code : Code} (straight : Straight code) : JumpsWithin known code := by
  intro item member label listed
  have steps := straight item member
  cases item with
  | code instruction => simp_all [Item.isStep, Item.targets]
  | _ => cases steps

end Within

/-- Code that marks every label it jumps to. -/
def Closed (code : List Item) : Prop := JumpsWithin (fun label => .mark label ∈ code) code

/-- Pieces of code that mark their own targets do so together. -/
theorem Closed.append {first second : List Item} (early : Closed first) (late : Closed second) :
    Closed (first ++ second) :=
  jumpsWithin_append.mpr ⟨early.mono fun _ => List.mem_append_left _,
    late.mono fun _ => List.mem_append_right _⟩

/-- A decision marks both of its labels behind its operands. -/
theorem closed_shortCircuit {left right : Lowered} (first : Closed left.code)
    (second : Closed right.code) (either : Bool) (leftType rightType : Ty) (decided done : Label)
    (result : Operand) :
    Closed (shortCircuit either left right leftType rightType decided done result) := by
  unfold Closed
  -- The whole code is named first, as each piece is about all that it marks.
  generalize whole : shortCircuit either left right leftType rightType decided done result = all
  have onLeft : JumpsWithin (fun label => .mark label ∈ all) left.code :=
    first.mono (by simp +contextual [← whole, shortCircuit])
  have onRight : JumpsWithin (fun label => .mark label ∈ all) right.code :=
    second.mono (by simp +contextual [← whole, shortCircuit])
  have decides : .mark decided ∈ all := by simp [← whole, shortCircuit]
  have ends : .mark done ∈ all := by simp [← whole, shortCircuit]
  have tests (value : Operand) (type : Ty) : JumpsWithin (fun label => .mark label ∈ all)
      (compareZero value type) := jumpsWithin_straight (straight_compareZero value type)
  have made : JumpsWithin (fun label => .mark label ∈ all)
      (shortCircuit either left right leftType rightType decided done result) := by
    simp [shortCircuit, onLeft, onRight, tests, decides, ends]
  rwa [whole] at made

namespace Expression

theorem closed_codeAll_of {expressions : List Expression}
    (each : ∀ expression ∈ expressions, ∀ progress : Progress,
      Closed (expression.lowered progress).code)
    (progress : Progress) : Closed (codeAll expressions progress) := by
  induction expressions generalizing progress with
  | nil => exact jumpsWithin_nil
  | cons first rest ih =>
    rw [codeAll_cons]
    exact (each first (by simp) progress).append
      (ih (fun expression member => each expression (by simp [member])) _)

/-- The code of an expression marks every label it jumps to. -/
theorem closed_lowered (expression : Expression) (progress : Progress) :
    Closed (expression.lowered progress).code := by
  -- Only decisions jump, and both of their labels are marked behind their operands.
  induction expression using inductionOnParts generalizing progress with
  | strict expression plain ih =>
    have shaped := shaped_own progress plain
    rw [shaped.code]
    exact (closed_codeAll_of ih progress).append (jumpsWithin_straight shaped.straight)
  | decision either left right type first second =>
    have code : ((Expression.binary (decision either) left right type).lowered progress).code = _ :=
      congrArg (fun result => Lowered.code result.1) (lower_decision progress either left right type)
    rw [code]
    exact closed_shortCircuit (first _) (second _) _ _ _ _ _ _

/-- The code of a condition marks every label it jumps to. -/
theorem closed_tested (test : Expression) (progress : Progress) : Closed (test.tested progress) :=
  (test.closed_lowered progress).append (jumpsWithin_straight (straight_compareZero _ _))

end Expression

namespace Exits

/-- A label where a statement leaves the code around it. -/
def Offers (exits : Exits) (label : Label) : Prop :=
  exits.loop? = some label ∨ label = exits.function

end Exits

/-- Code that marks every label it jumps to, unless the label is where the code is left. -/
def ClosedUpTo (exits : Exits) (code : List Item) : Prop :=
  JumpsWithin (fun label => .mark label ∈ code ∨ exits.Offers label) code

theorem Closed.upTo {code : Code} (closed : Closed code) (exits : Exits) : ClosedUpTo exits code :=
  closed.mono fun _ => .inl

/-- To close code, its pieces may jump to all its labels and to where it is left. -/
theorem closedUpTo_of {exits : Exits} {code : Code}
    (pieces : ∀ known : Label → Prop, (∀ label, .mark label ∈ code → known label) →
      (∀ label, exits.Offers label → known label) → JumpsWithin known code) :
    ClosedUpTo exits code :=
  pieces _ (fun _ => .inl) (fun _ => .inr)

theorem ClosedUpTo.inside {exits : Exits} {code : Code} {known : Label → Prop}
    (closed : ClosedUpTo exits code) (marks : ∀ label, .mark label ∈ code → known label)
    (left : ∀ label, exits.Offers label → known label) : JumpsWithin known code :=
  closed.mono fun label => Or.rec (marks label) (left label)

/-- Inside a loop, code is left at the end of the loop, or where the function is left. -/
theorem Exits.Offers.within {exits : Exits} {exit label : Label}
    (offers : (exits.within exit).Offers label) : label = exit ∨ exits.Offers label := by
  rcases offers with left | ended
  · cases left
    exact .inl rfl
  · exact .inr (.inr ended)

namespace Statement

theorem closed_loweredAll_of {statements : List Statement} {exits : Exits}
    (each : ∀ statement ∈ statements, ∀ progress : Progress,
      ClosedUpTo exits (statement.lowered exits progress)) (progress : Progress) :
    ClosedUpTo exits (loweredAll exits statements progress) := by
  induction statements generalizing progress with
  | nil => exact jumpsWithin_nil
  | cons first rest ih =>
    have early := each first (by simp) progress
    have late := ih (fun statement member => each statement (by simp [member]))
      (first.after exits progress)
    unfold loweredAll
    rw [lowerAll_cons]
    -- A jump that stays inside of one statement stays inside of all of them.
    refine jumpsWithin_append.mpr ⟨early.mono fun label => ?_, late.mono fun label => ?_⟩
    · exact Or.imp_left (List.mem_append_left _)
    · exact Or.imp_left (List.mem_append_right _)

/-- The code of a statement marks every label it jumps to, but for those where it is left. -/
theorem closed_lowered (statement : Statement) (exits : Exits) (progress : Progress) :
    ClosedUpTo exits (statement.lowered exits progress) := by
  induction statement using inductionOn generalizing exits progress with
  | evaluate value =>
    unfold lowered
    rw [lower_evaluate]
    exact (value.closed_lowered progress).upTo exits
  | assign left right =>
    unfold lowered
    rw [lower_assign]
    dsimp only
    rw [(Expression.located_target _ left).1]
    refine Closed.upTo (.append (.append ?_ ?_) (jumpsWithin_straight (straight_storeValue _ _ _ _))) exits
    · exact right.closed_lowered progress
    · exact left.target.closed_lowered _
  | breakLoop =>
    unfold lowered
    rw [lower_breakLoop]
    cases around : exits.loop? with
    | none => exact jumpsWithin_nil
    | some exit => simp [ClosedUpTo, Exits.Offers, around]
  | returnValue value =>
    have loaded := straight_loadReturned value.type (value.lowered progress).value
    have computed := ((value.closed_lowered progress).append (jumpsWithin_straight loaded)).upTo exits
    unfold lowered
    rw [lower_returnValue, List.append_cons]
    refine closedUpTo_of fun known marks left => ?_
    have before := computed.inside (fun label inside => marks label (List.mem_append_left _ inside)) left
    exact jumpsWithin_append.mpr ⟨before, by simp [left _ (.inr rfl)]⟩
  | block scope body each =>
    unfold lowered
    rw [lower_block]
    exact closed_loweredAll_of (fun statement member => each statement member exits) _
  | whileLoop test body turn =>
    unfold lowered
    rw [lower_whileLoop]
    refine closedUpTo_of fun known marks left => ?_
    have top : known progress.label := marks _ (by simp)
    have exit : known progress.skip.label := marks _ (by simp)
    -- The end of the loop is marked here, and what else the body may go to is left open.
    have around (label : Label) : (exits.within progress.skip.label).Offers label → known label :=
      fun offers => offers.within.elim (fun same => same ▸ exit) (left label)
    have tested := (test.closed_tested progress.skip.skip).mono
      fun label inside => marks label (by simp [inside])
    have turned := (turn (exits.within progress.skip.label) (test.after progress.skip.skip)).inside
      (fun label inside => marks label (by simp [inside])) around
    simp [top, exit, tested, turned]
  | forLoop init test increment body start next turn =>
    let started := init.after exits progress.skip.skip
    let inside := exits.within progress.skip.label
    unfold lowered
    rw [lower_forLoop]
    refine closedUpTo_of fun known marks left => ?_
    have top : known progress.label := marks _ (by simp)
    have exit : known progress.skip.label := marks _ (by simp)
    have around (label : Label) : inside.Offers label → known label :=
      fun offers => offers.within.elim (fun same => same ▸ exit) (left label)
    have begun := (start exits progress.skip.skip).inside
      (fun label listed => marks label (by simp [listed])) left
    have tested := (test.closed_tested started).mono
      fun label listed => marks label (by simp [started, listed])
    have turned := (turn inside (test.after started)).inside
      (fun label listed => marks label (by simp [inside, started, listed])) around
    have stepped := (next exits (body.after inside (test.after started))).inside
      (fun label listed => marks label (by simp [inside, started, listed])) left
    simp [top, exit, begun, tested, turned, stepped, started, inside]
  | ifThen test body taken =>
    unfold lowered
    rw [lower_ifThen]
    refine closedUpTo_of fun known marks left => ?_
    have skip : known progress.label := marks _ (by simp)
    have tested := (test.closed_tested progress.skip).mono
      fun label listed => marks label (by simp [listed])
    have chosen := (taken exits (test.after progress.skip)).inside
      (fun label listed => marks label (by simp [listed])) left
    simp [skip, tested, chosen]
  | ifElse test body otherwise taken other =>
    let last := body.after exits (test.after progress.skip)
    unfold lowered
    rw [lower_ifElse]
    refine closedUpTo_of fun known marks left => ?_
    have skip : known progress.label := marks _ (by simp)
    have done : known last.label := marks _ (by simp [last])
    have tested := (test.closed_tested progress.skip).mono
      fun label listed => marks label (by simp [listed])
    have chosen := (taken exits (test.after progress.skip)).inside
      (fun label listed => marks label (by simp [listed])) left
    have avoided := (other exits last.skip).inside
      (fun label listed => marks label (by simp [last, listed])) left
    simp [skip, done, tested, chosen, avoided, last]

end Statement

/-- The body of a function jumps to its own labels, and to the end of the function. -/
theorem Function.closed_bodyCode (function : Function) (symbols : SymbolTable) (nextLabel : Nat) :
    JumpsWithin
      (fun label => .mark label ∈ function.bodyCode symbols nextLabel ∨ label = ⟨nextLabel⟩)
      (function.bodyCode symbols nextLabel) := by
  have closed := Statement.closed_loweredAll_of
    (fun statement (_ : statement ∈ function.body) =>
      statement.closed_lowered { function := ⟨nextLabel⟩ }) (function.entry symbols nextLabel)
  refine closed.inside (fun _ => .inl) fun label => ?_
  rintro (looping | ended)
  · cases looping
  · exact .inr ended

end SmallC
