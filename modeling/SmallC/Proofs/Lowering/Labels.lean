import SmallC.Proofs.Lowering.Statements

/-! Every label that is handed out is defined exactly once, by the code or by a constant. -/

namespace SmallC

/-- The label whose place an item is. -/
def Item.label? : Item → Option Label
  | .mark label | .literal label _ => some label
  | _ => none

/-- How often a label is defined among items. -/
def defined (items : List Item) (label : Label) : Nat :=
  items.countP fun item => item.label? = some label

variable {label : Label}

@[simp] theorem defined_nil : defined [] label = 0 := rfl

@[simp] theorem defined_append (first second : List Item) :
    defined (first ++ second) label = defined first label + defined second label :=
  List.countP_append

@[simp] theorem defined_operate (opcode : Opcode) (arguments : List Argument) (rest : Code) :
    defined (operate opcode arguments :: rest) label = defined rest label :=
  List.countP_cons_of_neg (by simp [operate, Item.label?])

@[simp] theorem defined_mark (other : Label) (rest : List Item) :
    defined (.mark other :: rest) label =
      defined rest label + if label.number = other.number then 1 else 0 := by
  obtain ⟨number⟩ := label
  obtain ⟨given⟩ := other
  simp [defined, List.countP_cons, Item.label?, eq_comm]

/-- Straight code defines no label. -/
theorem defined_straight {code : Code} (straight : Straight code) : defined code label = 0 := by
  refine List.countP_eq_zero.mpr ?_
  intro item member
  have steps := straight item member
  -- Only instructions are steps, and they are no labels.
  cases item <;> simp [Item.isStep, Item.label?] at steps ⊢

namespace Progress

/-- How often a label stands for a constant. -/
def kept (progress : Progress) (label : Label) : Nat :=
  progress.literals.countP fun entry => entry.1 = label

/-- One for a label that is handed out between, else zero. -/
def handed (old new : Progress) (label : Label) : Nat :=
  if old.nextLabel ≤ label.number ∧ label.number < new.nextLabel then 1 else 0

/-- Code and new constants together define every label handed out meanwhile exactly once. -/
structure Accounts (old : Progress) (code : Code) (new : Progress) : Prop where
  /-- Labels are numbered upwards. -/
  labels : old.nextLabel ≤ new.nextLabel
  /-- Each label is defined as often as it was handed out. -/
  once : ∀ label, defined code label + new.kept label = old.kept label + handed old new label

theorem handed_split {first second third : Progress} (low : first.nextLabel ≤ second.nextLabel)
    (high : second.nextLabel ≤ third.nextLabel) :
    handed first third label = handed first second label + handed second third label := by
  -- A label is handed out in the first stretch, in the second one, or in neither.
  unfold handed
  split <;> split <;> split <;> omega

/-- Accounts of one stretch of code go on with those of the next one. -/
theorem Accounts.append {first second third : Progress} {front back : Code}
    (early : first.Accounts front second) (late : second.Accounts back third) :
    first.Accounts (front ++ back) third := by
  -- What the first piece counts the second one starts from, so the counts add up.
  have low := early.labels
  have high := late.labels
  refine ⟨Nat.le_trans low high, ?_⟩
  intro label
  have before := early.once label
  have after := late.once label
  rw [defined_append, handed_split low high]
  omega

/-- Code without labels accounts for progress that hands out none. -/
theorem Accounts.quiet {old new : Progress} {code : Code} (straight : Straight code)
    (labels : new.nextLabel = old.nextLabel) (literals : new.literals = old.literals) :
    old.Accounts code new := by
  -- Straight code defines nothing, and nothing has been handed out.
  refine ⟨Nat.le_of_eq labels.symm, ?_⟩
  intro label
  have none : handed old new label = 0 := by
    unfold handed
    rw [if_neg (by omega)]
  rw [defined_straight straight, none, kept, kept, literals]
  omega

theorem handed_skip (progress : Progress) :
    handed progress progress.skip label = if label.number = progress.nextLabel then 1 else 0 := by
  have next : progress.nextLabel ≤ label.number ∧ label.number < progress.skip.nextLabel ↔
      label.number = progress.nextLabel := by
    simp only [skip]
    omega
  unfold handed
  simp only [next]

/-- A label that is handed out first may stand behind everything else. -/
theorem Accounts.marked {progress last : Progress} {code : Code}
    (accounts : progress.skip.Accounts code last) :
    progress.Accounts (code ++ [.mark progress.label]) last := by
  -- The label is handed out first, and nothing after it defines it again.
  have first : progress.nextLabel ≤ progress.skip.nextLabel := Nat.le_succ _
  refine ⟨Nat.le_trans first accounts.labels, ?_⟩
  intro label
  have inside : defined code label + last.kept label =
      progress.kept label + progress.skip.handed last label := accounts.once label
  have behind : defined [.mark progress.label] label =
      if label.number = progress.nextLabel then 1 else 0 := by
    rw [defined_mark, defined_nil, Nat.zero_add]
    rfl
  rw [defined_append, behind, handed_split first accounts.labels, handed_skip]
  omega

/-- The order of the code does not matter to the account. -/
theorem Accounts.alike {old new : Progress} {code other : Code} (accounts : old.Accounts code new)
    (same : ∀ label, defined other label = defined code label) : old.Accounts other new := by
  refine ⟨accounts.labels, ?_⟩
  intro label
  rw [same]
  exact accounts.once label

/-- A constant accounts for its label. -/
theorem accounts_keep (progress : Progress) (value : Literal) :
    progress.Accounts [] (progress.keep value) := by
  -- The label handed out is the one the constant stands under.
  refine ⟨Nat.le_succ _, ?_⟩
  intro label
  have number : progress.label = label ↔ label.number = progress.nextLabel := by
    obtain ⟨number⟩ := label
    simp [Progress.label, eq_comm]
  have one : handed progress (progress.keep value) label = handed progress progress.skip label := rfl
  rw [one, handed_skip]
  simp [kept, keep, List.countP_append, List.countP_cons, number]

end Progress

namespace Expression

/-- Expressions that each account for their labels account for them together. -/
theorem accountsAll_of {expressions : List Expression}
    (each : ∀ expression ∈ expressions, ∀ progress : Progress,
      progress.Accounts (expression.lowered progress).code (expression.after progress))
    (progress : Progress) :
    progress.Accounts (codeAll expressions progress) (afterAll expressions progress) := by
  induction expressions generalizing progress with
  | nil => exact .quiet straight_nil rfl rfl
  | cons first rest ih =>
    rw [codeAll_cons, afterAll_cons]
    exact (each first (by simp) progress).append
      (ih (fun expression member => each expression (by simp [member])) _)

/-- Converting a value hands out no label. -/
theorem convertValue_quiet (source type : Ty) (value result : Operand) (progress : Progress) :
    (convertValue source type value result progress).2.nextLabel = progress.nextLabel ∧
      (convertValue source type value result progress).2.literals = progress.literals := by
  unfold convertValue
  cases Width.of source <;> cases Width.of type <;> dsimp only <;> try split
  all_goals exact ⟨rfl, rfl⟩

/-- The own code of a strict node accounts for what the node hands out. -/
theorem accounts_own (progress : Progress) {expression : Expression}
    (strict : expression.isDecision = false) :
    (afterAll expression.parts progress).Accounts (expression.own progress)
      (expression.after progress) := by
  have straight := (shaped_own progress strict).straight
  -- Only constants take labels; other nodes take places in the frame.
  cases expression with
  | integer value type => exact .quiet straight rfl rfl
  | identifier symbol type => exact .quiet straight rfl rfl
  | real spelling => exact progress.accounts_keep _
  | string text => exact progress.accounts_keep _
  | call callee arguments type =>
    refine .quiet straight ?_ ?_ <;> unfold after <;> rw [lower_call] <;> rfl
  | unary op operand type =>
    cases op with
    | not => refine .quiet straight ?_ ?_ <;> unfold after <;> rw [lower_not] <;> rfl
    | negate => refine .quiet straight ?_ ?_ <;> unfold after <;> rw [lower_negate] <;> rfl
    | dereference =>
      refine .quiet straight ?_ ?_ <;> unfold after <;> rw [lower_dereference] <;> rfl
    | address =>
      have last := (located_target progress operand).2
      refine .quiet straight ?_ ?_ <;> unfold after <;> rw [lower_address] <;> dsimp only <;>
        rw [last] <;> rfl
    | cast =>
      have quiet := convertValue_quiet operand.type type (operand.lowered progress).value
        ((operand.after progress).slot type) ((operand.after progress).take type)
      refine .quiet straight ?_ ?_ <;> unfold after <;> rw [lower_cast]
      · exact quiet.1
      · exact quiet.2
  | step op scale operand type =>
    have last := (located_target progress operand).2
    refine .quiet straight ?_ ?_ <;> unfold after <;> rw [lower_step] <;> dsimp only <;>
      rw [last] <;> rfl
  | binary op left right type =>
    obtain ⟨conjunction, disjunction⟩ := operator_strict strict
    refine .quiet straight ?_ ?_ <;> unfold after <;>
      rw [lower_binary _ conjunction disjunction] <;> rfl

/-- An expression accounts for its labels. -/
theorem accounts (expression : Expression) (progress : Progress) :
    progress.Accounts (expression.lowered progress).code (expression.after progress) := by
  induction expression using inductionOnParts generalizing progress with
  | strict expression plain each =>
    rw [(shaped_own progress plain).code]
    exact (accountsAll_of each progress).append (accounts_own progress plain)
  | decision either left right type first second =>
    have code : ((Expression.binary (decision either) left right type).lowered progress).code = _ :=
      congrArg (fun result => Lowered.code result.1) (lower_decision progress either left right type)
    have entered : progress.skip.skip.Accounts [] (progress.enter type) :=
      .quiet straight_nil rfl rfl
    have operands := entered.append ((first (progress.enter type)).append (second _))
    rw [code, after_decision]
    -- Both labels are handed out before the operands are lowered.
    refine operands.marked.marked.alike ?_
    intro label
    have leftTest : defined (compareZero (left.lowered (progress.enter type)).value left.type)
        label = 0 := defined_straight (straight_compareZero _ _)
    have rightTest : defined (compareZero (right.lowered (left.after (progress.enter type))).value
        right.type) label = 0 := defined_straight (straight_compareZero _ _)
    simp only [shortCircuit, defined_append, defined_operate, defined_mark, defined_nil, leftTest,
      rightTest]
    omega

/-- The code of a condition defines the labels of its expression. -/
theorem defined_tested (test : Expression) (progress : Progress) (label : Label) :
    defined (test.tested progress) label = defined (test.lowered progress).code label := by
  unfold tested
  rw [defined_append, defined_straight (straight_compareZero _ _)]
  rfl

end Expression

namespace Statement

/-- Statements that each account for their labels account for them together. -/
theorem accountsAll_of {statements : List Statement} {exits : Exits}
    (each : ∀ statement ∈ statements, ∀ progress : Progress,
      progress.Accounts (statement.lowered exits progress) (statement.after exits progress))
    (progress : Progress) :
    progress.Accounts (loweredAll exits statements progress)
      (afterAll exits statements progress) := by
  induction statements generalizing progress with
  | nil => exact .quiet straight_nil rfl rfl
  | cons first rest ih =>
    unfold loweredAll afterAll
    rw [lowerAll_cons]
    exact (each first (by simp) progress).append
      (ih (fun statement member => each statement (by simp [member])) _)

/-- Reaching a place accounts for its labels. -/
theorem accounts_located (operand : Expression) (progress : Progress) :
    progress.Accounts (operand.located progress).code (operand.locatedAfter progress) := by
  obtain ⟨code, last⟩ := Expression.located_target progress operand
  rw [code, last]
  exact operand.target.accounts progress

/-- A statement accounts for its labels. -/
theorem accounts (statement : Statement) (exits : Exits) (progress : Progress) :
    progress.Accounts (statement.lowered exits progress) (statement.after exits progress) := by
  induction statement using inductionOn generalizing exits progress with
  | evaluate value =>
    unfold lowered after
    rw [lower_evaluate]
    exact value.accounts progress
  | assign left right =>
    unfold lowered after
    rw [lower_assign]
    refine ((right.accounts progress).append (accounts_located left _)).alike ?_
    intro label
    -- The store behind both values defines no label.
    rw [defined_append, defined_straight (straight_storeValue _ _ _ _), Nat.add_zero]
  | breakLoop =>
    unfold lowered after
    rw [lower_breakLoop]
    refine (Progress.Accounts.quiet straight_nil rfl rfl).alike ?_
    intro label
    cases exits.loop? <;> rfl
  | returnValue value =>
    unfold lowered after
    rw [lower_returnValue]
    refine (value.accounts progress).alike ?_
    intro label
    have loaded : defined [loadReturned value.type (value.lowered progress).value] label = 0 :=
      defined_straight (straight_loadReturned _ _)
    rw [← List.singleton_append, defined_append, defined_append, loaded, defined_operate]
    rfl
  | block scope body each =>
    unfold lowered after
    rw [lower_block]
    have bound : progress.Accounts [] (progress.bind scope) := .quiet straight_nil rfl rfl
    exact bound.append (accountsAll_of (fun statement member => each statement member exits) _)
  | whileLoop test body turn =>
    unfold lowered after
    rw [lower_whileLoop]
    refine ((test.accounts _).append (turn _ _)).marked.marked.alike ?_
    intro label
    simp only [List.cons_append, defined_append, defined_operate, defined_mark, defined_nil,
      Expression.defined_tested]
    omega
  | forLoop init test increment body start next turn =>
    unfold lowered after
    rw [lower_forLoop]
    refine ((start _ _).append ((test.accounts _).append ((turn _ _).append
      (next _ _)))).marked.marked.alike ?_
    intro label
    simp only [defined_append, defined_operate, defined_mark, defined_nil,
      Expression.defined_tested]
    omega
  | ifThen test body taken =>
    unfold lowered after
    rw [lower_ifThen]
    refine ((test.accounts _).append (taken _ _)).marked.alike ?_
    intro label
    simp only [defined_append, defined_operate, defined_mark, defined_nil,
      Expression.defined_tested]
    omega
  | ifElse test body otherwise taken other =>
    unfold lowered after
    rw [lower_ifElse]
    refine ((test.accounts _).append ((taken _ _).append (other _ _).marked)).marked.alike ?_
    intro label
    simp only [defined_append, defined_operate, defined_mark, defined_nil,
      Expression.defined_tested]
    omega

end Statement

/-- Every label below the next one is defined exactly once. -/
def Generated.Labelled (generated : Generated) : Prop :=
  ∀ label, defined generated.items label = if label.number < generated.nextLabel then 1 else 0

/-- The constants of a function are defined under their labels. -/
theorem defined_literalItems (literals : List (Label × Literal)) (label : Label) :
    defined (literalItems literals) label = literals.countP fun entry => entry.1 = label := by
  unfold literalItems
  split
  · simp_all
  · simp [defined, Item.label?, Function.comp_def]

/-- The body of a function accounts for its labels. -/
theorem Function.accounts (function : Function) (symbols : SymbolTable) (nextLabel : Nat) :
    (function.entry symbols nextLabel).Accounts (function.bodyCode symbols nextLabel)
      (function.last symbols nextLabel) :=
  Statement.accountsAll_of
    (fun statement _ => statement.accounts { function := ⟨nextLabel⟩ }) _

/-- The code and the constants of a function define the labels handed out in its body. -/
theorem Function.defined_bodyCode (function : Function) (symbols : SymbolTable) (nextLabel : Nat)
    (label : Label) : defined (function.bodyCode symbols nextLabel) label +
      defined (literalItems (function.last symbols nextLabel).literals) label =
        if nextLabel + 1 ≤ label.number ∧ label.number < (function.last symbols nextLabel).nextLabel
        then 1 else 0 := by
  have once := (function.accounts symbols nextLabel).once label
  -- Nothing has been kept where the body starts.
  have fresh : (function.entry symbols nextLabel).kept label = 0 := rfl
  rw [fresh, Nat.zero_add] at once
  rw [defined_literalItems]
  exact once

theorem defined_prologue (name : String) (label : Label) : defined (prologue name) label = 0 := rfl

theorem defined_epilogue (name : String) (exit : Label) (frame : Frame) (label : Label) :
    defined (epilogue name exit frame) label = if label.number = exit.number then 1 else 0 := by
  have around : defined (epilogue name exit frame) label = defined [.mark exit] label := rfl
  rw [around, defined_mark, defined_nil, Nat.zero_add]

/-- A function defines its labels exactly once, the first of them at its end. -/
theorem generateFunction_labelled (function : Function) (symbols : SymbolTable)
    {generated : Generated} (labelled : generated.Labelled) :
    (generateFunction function symbols generated).2.Labelled := by
  have low : generated.nextLabel + 1 ≤ (function.last symbols generated.nextLabel).nextLabel :=
    (function.accounts symbols generated.nextLabel).labels
  intro label
  have before := labelled label
  have inside := function.defined_bodyCode symbols generated.nextLabel label
  show _ = if label.number < (function.last symbols generated.nextLabel).nextLabel then 1 else 0
  simp only [generateFunction_eq, defined_append, defined_prologue, defined_epilogue]
  -- The label is old, that of the function's end, handed out in the body, or still to come.
  split at before <;> split at inside <;> split <;> split <;> omega

end SmallC
