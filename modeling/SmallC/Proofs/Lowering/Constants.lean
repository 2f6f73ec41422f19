import SmallC.Proofs.Lowering.Labels
import SmallC.Proofs.Lowering.Mentions

/-! Constants: a function keeps those of its literal nodes, and its code reads no others. -/

namespace SmallC

/-- The label of the constant that an operand reads. -/
def Operand.constant? : Operand → Option Label
  | .label mark => some mark
  | _ => none

/-- The label of the constant that an argument of an instruction reads. -/
def Argument.constant? : Argument → Option Label
  | .operand place => place.constant?
  | _ => none

/-- The labels of the constants that an item reads. -/
def Item.constants : Item → List Label
  | .code instruction => instruction.arguments.filterMap Argument.constant?
  | _ => []

/-- Code that reads no constants but those under the given labels. -/
def ReadsWithin (known : Label → Prop) (code : List Item) : Prop :=
  ∀ item ∈ code, ∀ label ∈ item.constants, known label

/-- An operand that reads no constant but those under the given labels. -/
def Operand.Within (known : Label → Prop) (operand : Operand) : Prop :=
  ∀ label, operand.constant? = some label → known label

section Reads

variable {known : Label → Prop}

@[simp] theorem within_immediate (value : Int) : (Operand.immediate value).Within known := by
  simp [Operand.Within, Operand.constant?]

@[simp] theorem within_frame (offset : Int) : (Operand.frame offset).Within known := by
  simp [Operand.Within, Operand.constant?]

@[simp] theorem within_value (value : Nat) : (SmallC.immediate value).Within known :=
  within_immediate _

@[simp] theorem within_slot (progress : Progress) (type : Ty) :
    (progress.slot type).Within known :=
  within_frame _

@[simp] theorem readsWithin_nil : ReadsWithin known [] := by simp [ReadsWithin]

@[simp] theorem readsWithin_append {first second : List Item} :
    ReadsWithin known (first ++ second) ↔ ReadsWithin known first ∧ ReadsWithin known second :=
  List.forall_mem_append

/-- An instruction reads the constants of its operands. -/
@[simp] theorem readsWithin_operate {opcode : Opcode} {arguments : List Argument}
    {rest : List Item} : ReadsWithin known (operate opcode arguments :: rest) ↔
      (∀ place, .operand place ∈ arguments → place.Within known) ∧ ReadsWithin known rest := by
  unfold ReadsWithin
  rw [List.forall_mem_cons]
  refine and_congr_left fun _ => ?_
  simp only [operate, Item.constants, List.mem_filterMap]
  -- Only operands may be constants; other arguments name none.
  constructor
  · rintro reads place member label here
    exact reads label ⟨_, member, here⟩
  · rintro reads label ⟨argument, member, here⟩
    cases argument with
    | operand place => exact reads place member label here
    | _ => cases here

@[simp] theorem readsWithin_mark {label : Label} {rest : List Item} :
    ReadsWithin known (.mark label :: rest) ↔ ReadsWithin known rest := by
  simp [ReadsWithin, Item.constants]

theorem ReadsWithin.mono {others : Label → Prop} {code : List Item} (reads : ReadsWithin known code)
    (implies : ∀ label, known label → others label) : ReadsWithin others code :=
  fun item member label listed => implies label (reads item member label listed)

/-- An argument reads no constant but those under the given labels. -/
def Argument.Within (known : Label → Prop) (argument : Argument) : Prop :=
  ∀ label, argument.constant? = some label → known label

/-- Code reads the constants that its arguments do. -/
theorem Mentions.readsWithin {code : List Item}
    (mentions : Mentions (fun _ argument => argument.Within known) code) : ReadsWithin known code := by
  intro item member label listed
  cases item with
  | code instruction =>
    obtain ⟨argument, named, constant⟩ := List.mem_filterMap.mp listed
    exact mentions _ member argument named label constant
  | _ => cases listed

/-- What is common to all code is no constant. -/
theorem common_within : Common fun _ argument => argument.Within known := by
  constructor <;> intros <;> intro _ _ _ constant <;> cases constant

theorem Operand.Within.allowed {operand : Operand} (inside : operand.Within known) :
    Allowed (fun _ argument => argument.Within known) (.operand operand) :=
  fun _ _ => inside

theorem readsWithin_compareZero {value : Operand} (inside : value.Within known) (type : Ty) :
    ReadsWithin known (compareZero value type) :=
  (mentions_compareZero common_within inside.allowed type).readsWithin

/-- A place reads what its operand reads. -/
def Place.Within (known : Label → Prop) : Place → Prop
  | .direct operand | .indirect operand => operand.Within known

theorem Operand.Within.mono {others : Label → Prop} {operand : Operand}
    (inside : operand.Within known) (implies : ∀ label, known label → others label) :
    operand.Within others :=
  fun label constant => implies label (inside label constant)

theorem Place.Within.mono {others : Label → Prop} {place : Place} (inside : place.Within known)
    (implies : ∀ label, known label → others label) : place.Within others := by
  cases place <;> exact Operand.Within.mono inside implies

theorem Place.Within.allowed {place : Place} (inside : place.Within known) :
    place.Allowed fun _ argument => argument.Within known := by
  cases place <;> exact Operand.Within.allowed inside

theorem readsWithin_storeValue {place : Place} {value : Operand} (reached : place.Within known)
    (inside : value.Within known) (leftType rightType : Ty) :
    ReadsWithin known (storeValue leftType rightType place value) :=
  (mentions_storeValue common_within reached.allowed inside.allowed leftType rightType).readsWithin

theorem readsWithin_loadReturned {value : Operand} (inside : value.Within known) (type : Ty) :
    ReadsWithin known [loadReturned type value] :=
  (mentions_loadReturned common_within inside.allowed type mentions_nil).readsWithin

end Reads

/-- The constant that a literal stands for. -/
def Expression.literal? : Expression → Option Literal
  | .string text => some (.string text)
  | .real spelling => some (.real spelling)
  | _ => none

/-- The constant that a site keeps, under the label that is handed out for it. -/
def Site.constant? : Site → Option (Label × Literal)
  | .node expression progress => expression.literal?.map (progress.label, ·)
  | .enter .. | .test .. | .settle .. | .bind .. | .store .. | .give .. | .mark _ | .jump _ => none

/-- The constants that sites keep, in order. -/
def constantsAt (sites : List Site) : List (Label × Literal) := sites.filterMap Site.constant?

/-- A label that stands for a constant kept at one of the sites. -/
def KeptAt (sites : List Site) (label : Label) : Prop := ∃ value, (label, value) ∈ constantsAt sites

@[simp] theorem constantsAt_nil : constantsAt [] = [] := rfl

@[simp] theorem constantsAt_append (sites others : List Site) :
    constantsAt (sites ++ others) = constantsAt sites ++ constantsAt others :=
  List.filterMap_append

@[simp] theorem constantsAt_cons (site : Site) (rest : List Site) :
    constantsAt (site :: rest) = site.constant?.toList ++ constantsAt rest := by
  unfold constantsAt
  rw [List.filterMap_cons]
  cases site.constant? <;> rfl

theorem keptAt_mono {sites others : List Site} (listed : sites ⊆ others) {label : Label}
    (kept : KeptAt sites label) : KeptAt others label := by
  obtain ⟨value, member⟩ := kept
  obtain ⟨site, inside, keeps⟩ := List.mem_filterMap.mp member
  exact ⟨value, List.mem_filterMap.mpr ⟨site, listed inside, keeps⟩⟩

namespace Expression

/-- Expressions keep the constants of their sites together, if each one does. -/
theorem literals_afterAll_of {expressions : List Expression}
    (each : ∀ expression ∈ expressions, ∀ progress : Progress,
      (expression.after progress).literals =
        progress.literals ++ constantsAt (expression.sites progress))
    (progress : Progress) : (afterAll expressions progress).literals =
      progress.literals ++ constantsAt (sitesAll expressions progress) := by
  induction expressions generalizing progress with
  | nil => simp [sitesAll]
  | cons first rest ih =>
    rw [afterAll_cons, ih fun expression member => each expression (by simp [member]),
      each first (by simp), sitesAll, constantsAt_append, List.append_assoc]

/-- Beyond those of its parts, a node keeps only the constant that it is itself. -/
theorem literals_own (progress : Progress) {expression : Expression}
    (strict : expression.isDecision = false) : (expression.after progress).literals =
      (afterAll expression.parts progress).literals
        ++ (expression.literal?.map (progress.label, ·)).toList := by
  -- All nodes but literals keep what their parts have kept.
  have nothing {node : Expression} (plain : node.literal? = none)
      (same : (node.after progress).literals = (afterAll node.parts progress).literals) :
      (node.after progress).literals = (afterAll node.parts progress).literals
        ++ (node.literal?.map (progress.label, ·)).toList := by
    rw [same, plain]
    exact (List.append_nil _).symm
  cases expression with
  | integer value type => exact nothing rfl (by unfold after; rw [lower_integer]; rfl)
  | identifier symbol type => exact nothing rfl (by unfold after; rw [lower_identifier]; rfl)
  | real spelling => unfold after; rw [lower_real]; rfl
  | string text => unfold after; rw [lower_string]; rfl
  | call callee arguments type => exact nothing rfl (by unfold after; rw [lower_call]; rfl)
  | unary op operand type =>
    refine nothing rfl ?_
    unfold after
    cases op with
    | not => rw [lower_not]; rfl
    | negate => rw [lower_negate]; rfl
    | dereference => rw [lower_dereference]; rfl
    | address => rw [lower_address]; dsimp only; rw [(located_target progress operand).2]; rfl
    | cast => rw [lower_cast]; exact (convertValue_quiet ..).2
  | step op scale operand type =>
    refine nothing rfl ?_
    unfold after
    rw [lower_step]
    dsimp only
    rw [(located_target progress operand).2]
    rfl
  | binary op left right type =>
    obtain ⟨conjunction, disjunction⟩ := operator_strict strict
    refine nothing rfl ?_
    unfold after
    rw [lower_binary _ conjunction disjunction]
    rfl

/-- Lowering an expression keeps the constants of its literal nodes, in order. -/
theorem literals_after (expression : Expression) (progress : Progress) :
    (expression.after progress).literals =
      progress.literals ++ constantsAt (expression.sites progress) := by
  induction expression using inductionOnParts generalizing progress with
  | strict expression plain ih =>
    rw [literals_own progress plain, literals_afterAll_of ih, sites_strict progress plain]
    simp [Site.constant?]
  | decision either left right type first second =>
    -- A decision keeps no constant of its own.
    have entered : (progress.enter type).literals = progress.literals := rfl
    rw [after_decision, second, first, sites_decision, entered, Site.decision]
    simp [Site.constant?]

/-- A value that is a constant is that of a literal node. -/
theorem constant_value {expression : Expression} {progress : Progress} {label : Label}
    (constant : (expression.lowered progress).value.constant? = some label) :
    label = progress.label ∧ expression.literal?.isSome := by
  have number (symbols : SymbolTable) (symbol : SymbolId) :
      (operandOf symbols symbol).constant? = none := by
    unfold operandOf
    split <;> rfl
  unfold lowered at constant
  cases expression with
  | integer value type => rw [lower_integer] at constant; cases constant
  | identifier symbol type => rw [lower_identifier, number] at constant; cases constant
  | real spelling => rw [lower_real] at constant; cases constant; exact ⟨rfl, rfl⟩
  | string text => rw [lower_string] at constant; cases constant; exact ⟨rfl, rfl⟩
  | call | unary | step | binary =>
    -- Every other node puts its value on the frame.
    have inner : ∀ node : Expression, node.isLeaf = false →
        (lower node progress).1.value.constant? ≠ some label := by
      intro node inner
      obtain ⟨place, type, framed⟩ := value_frame progress inner
      unfold lowered at framed
      rw [framed]
      nofun
    exact absurd constant (inner _ rfl)

/-- The constant that a value is has been kept at a site of the expression. -/
theorem within_lowered (expression : Expression) (progress : Progress) :
    (expression.lowered progress).value.Within (KeptAt (expression.sites progress)) := by
  intro label constant
  obtain ⟨rfl, literal⟩ := constant_value constant
  obtain ⟨value, kept⟩ := Option.isSome_iff_exists.mp literal
  refine ⟨value, ?_⟩
  -- Only a literal is a constant, and its node is its one site.
  have alone : expression.sites progress = [.node expression progress] := by
    cases expression with
    | integer | real | string | identifier => rw [sites]
    | call | unary | step | binary => cases kept
  simp [alone, Site.constant?, kept]

/-- The values of expressions in order are kept at the sites of all. -/
theorem within_loweredAll (expressions : List Expression) (progress : Progress) :
    ∀ lowered ∈ loweredAll expressions progress,
      lowered.value.Within (KeptAt (sitesAll expressions progress)) := by
  induction expressions generalizing progress with
  | nil => simp
  | cons first rest ih =>
    rw [loweredAll_cons, sitesAll]
    intro lowered member label constant
    -- The sites of each expression are among those of all.
    rcases List.mem_cons.mp member with rfl | member
    · exact keptAt_mono (List.subset_append_left _ _) (first.within_lowered progress label constant)
    · exact keptAt_mono (List.subset_append_right _ _) (ih _ lowered member label constant)

/-- A place reads at most the constant that its target is. -/
theorem within_located (operand : Expression) (progress : Progress) :
    (operand.located progress).place.Within (KeptAt (sitesAll [operand.target] progress)) := by
  rw [sitesAll_single]
  rcases located_place progress operand with behind | ⟨itself, direct⟩
  · rw [behind]
    exact operand.target.within_lowered progress
  · rw [direct, itself]
    exact operand.within_lowered progress

/-- The own code of a node reads no constants but those of its parts. -/
theorem readsWithin_own (progress : Progress) {expression : Expression}
    (strict : expression.isDecision = false) :
    ReadsWithin (KeptAt (sitesAll expression.parts progress)) (expression.own progress) := by
  refine (mentions_own common_within strict ?_ ?_).readsWithin
  · intro part listed
    exact (within_loweredAll expression.parts progress part listed).allowed
  · -- What is called is no constant.
    intro _ _ _ _ _ constant
    cases constant

/-- Expressions read no constants but their own, if each one does. -/
theorem readsWithin_codeAll_of {expressions : List Expression}
    (each : ∀ expression ∈ expressions, ∀ progress : Progress,
      ReadsWithin (KeptAt (expression.sites progress)) (expression.lowered progress).code)
    (progress : Progress) :
    ReadsWithin (KeptAt (sitesAll expressions progress)) (codeAll expressions progress) := by
  induction expressions generalizing progress with
  | nil => exact readsWithin_nil
  | cons first rest ih =>
    rw [codeAll_cons, sitesAll, readsWithin_append]
    -- What the first expression reads is kept at its own sites, which are among all.
    refine ⟨(each first (by simp) progress).mono fun label => ?_, ?_⟩
    · exact keptAt_mono (List.subset_append_left _ _)
    · refine (ih (fun expression member => each expression (by simp [member])) _).mono fun label => ?_
      exact keptAt_mono (List.subset_append_right _ _)

/-- The code of an expression reads no constants but those of its own literal nodes. -/
theorem readsWithin_lowered (expression : Expression) (progress : Progress) :
    ReadsWithin (KeptAt (expression.sites progress)) (expression.lowered progress).code := by
  induction expression using inductionOnParts generalizing progress with
  | strict expression plain ih =>
    rw [(shaped_own progress plain).code, sites_strict progress plain, readsWithin_append]
    have inside {label : Label} : KeptAt (sitesAll expression.parts progress) label →
        KeptAt (sitesAll expression.parts progress ++ [.node expression progress]) label :=
      keptAt_mono (List.subset_append_left _ _)
    exact ⟨(readsWithin_codeAll_of ih progress).mono fun _ => inside,
      (readsWithin_own progress plain).mono fun _ => inside⟩
  | decision either left right type first second =>
    -- Both operands are lowered in full, and each is then compared with zero.
    let entry := progress.enter type
    let sites := (Expression.binary (decision either) left right type).sites progress
    have onLeft : left.sites entry ⊆ sites := by
      intro site member
      simp [sites, sites_decision, Site.decision, entry, member]
    have onRight : right.sites (left.after entry) ⊆ sites := by
      intro site member
      simp [sites, sites_decision, Site.decision, entry, member]
    have code : ((Expression.binary (decision either) left right type).lowered progress).code = _ :=
      congrArg (fun result => Lowered.code result.1) (lower_decision progress either left right type)
    have tested {operand : Expression} {progress : Progress} (inside : operand.sites progress ⊆ sites) :
        ReadsWithin (KeptAt sites) (compareZero (operand.lowered progress).value operand.type) :=
      readsWithin_compareZero
        (fun label constant => keptAt_mono inside (operand.within_lowered progress label constant)) _
    rw [code]
    simp [shortCircuit, tested onLeft, tested onRight, (first entry).mono fun _ => keptAt_mono onLeft,
      (second (left.after entry)).mono fun _ => keptAt_mono onRight, entry, sites]

/-- A condition reads no constants but those of its own literal nodes. -/
theorem readsWithin_tested (test : Expression) (progress : Progress) :
    ReadsWithin (KeptAt (test.sites progress)) (test.tested progress) :=
  readsWithin_append.mpr ⟨test.readsWithin_lowered progress,
    readsWithin_compareZero (test.within_lowered progress) _⟩

end Expression

namespace Statement

theorem literals_afterAll_of {statements : List Statement} {exits : Exits}
    (each : ∀ statement ∈ statements, ∀ progress : Progress,
      (statement.after exits progress).literals =
        progress.literals ++ constantsAt (statement.sites exits progress))
    (progress : Progress) : (afterAll exits statements progress).literals =
      progress.literals ++ constantsAt (sitesAll statements exits progress) := by
  induction statements generalizing progress with
  | nil => simp [afterAll_nil, sitesAll]
  | cons first rest ih =>
    rw [afterAll_cons, ih fun statement member => each statement (by simp [member]),
      each first (by simp), sitesAll, constantsAt_append, List.append_assoc]

/-- Lowering a statement keeps the constants of its literal nodes, in order. -/
theorem literals_after (statement : Statement) (exits : Exits) (progress : Progress) :
    (statement.after exits progress).literals =
      progress.literals ++ constantsAt (statement.sites exits progress) := by
  -- A label that is handed out for a jump keeps no constant.
  have fresh (progress : Progress) : progress.skip.literals = progress.literals := rfl
  induction statement using inductionOn generalizing exits progress with
  | evaluate value => rw [after_evaluate, value.literals_after, sites]
  | assign left right =>
    rw [after_assign, (Expression.located_target _ left).2, left.target.literals_after,
      right.literals_after, sites]
    simp [Site.constant?]
  | breakLoop =>
    rw [after_breakLoop, sites]
    cases exits.loop? <;> simp [Site.constant?]
  | returnValue value =>
    rw [after_returnValue, value.literals_after, sites]
    simp [Site.constant?]
  | block scope body each =>
    have bound : (progress.bind scope).literals = progress.literals := rfl
    rw [after_block, literals_afterAll_of fun statement member => each statement member exits, bound,
      sites]
    simp [Site.constant?]
  | whileLoop test body turn =>
    rw [after_whileLoop, turn, test.literals_after, fresh, fresh, sites]
    simp [Site.constant?]
  | forLoop init test increment body start next turn =>
    rw [after_forLoop, next, turn, test.literals_after, start, fresh, fresh, sites]
    simp [Site.constant?]
  | ifThen test body taken =>
    rw [after_ifThen, taken, test.literals_after, fresh, sites]
    simp [Site.constant?]
  | ifElse test body otherwise taken other =>
    rw [after_ifElse, other, fresh, taken, test.literals_after, fresh, sites]
    simp [Site.constant?]

theorem readsWithin_loweredAll_of {statements : List Statement} {exits : Exits}
    (each : ∀ statement ∈ statements, ∀ progress : Progress,
      ReadsWithin (KeptAt (statement.sites exits progress)) (statement.lowered exits progress))
    (progress : Progress) : ReadsWithin (KeptAt (sitesAll statements exits progress))
      (loweredAll exits statements progress) := by
  induction statements generalizing progress with
  | nil => exact readsWithin_nil
  | cons first rest ih =>
    unfold loweredAll
    rw [lowerAll_cons, sitesAll, readsWithin_append]
    -- What the first statement reads is kept at its own sites, which are among all.
    refine ⟨(each first (by simp) progress).mono fun _ => ?_, ?_⟩
    · exact keptAt_mono (List.subset_append_left _ _)
    · refine (ih (fun statement member => each statement (by simp [member])) _).mono fun _ => ?_
      exact keptAt_mono (List.subset_append_right _ _)

/-- The code of a statement reads no constants but those of its own literal nodes. -/
theorem readsWithin_lowered (statement : Statement) (exits : Exits) (progress : Progress) :
    ReadsWithin (KeptAt (statement.sites exits progress)) (statement.lowered exits progress) := by
  -- What a part of the statement reads is kept among the sites of the whole.
  have part {sites others : List Site} {code : Code} (reads : ReadsWithin (KeptAt sites) code)
      (listed : ∀ site ∈ sites, site ∈ others) : ReadsWithin (KeptAt others) code :=
    reads.mono fun _ => keptAt_mono listed
  induction statement using inductionOn generalizing exits progress with
  | evaluate value =>
    unfold lowered
    rw [lower_evaluate, sites]
    exact value.readsWithin_lowered progress
  | assign left right =>
    have value := right.readsWithin_lowered progress
    have target := left.target.readsWithin_lowered (right.after progress)
    have reached := left.within_located (right.after progress)
    rw [Expression.sitesAll_single] at reached
    unfold lowered
    rw [lower_assign, sites]
    dsimp only
    rw [(Expression.located_target _ left).1, readsWithin_append, readsWithin_append]
    refine ⟨⟨part value (by simp +contextual), part target (by simp +contextual)⟩, ?_⟩
    refine readsWithin_storeValue (reached.mono fun _ => keptAt_mono ?_)
      ((right.within_lowered progress).mono fun _ => keptAt_mono ?_) _ _
    · exact List.subset_append_of_subset_right _ (List.subset_append_left _ _)
    · exact List.subset_append_left _ _
  | breakLoop =>
    unfold lowered
    rw [lower_breakLoop]
    cases exits.loop? <;> simp
  | returnValue value =>
    have inside := readsWithin_loadReturned (value.within_lowered progress) value.type
    unfold lowered
    rw [lower_returnValue, sites, readsWithin_append]
    refine ⟨part (value.readsWithin_lowered progress) (by simp +contextual), ?_⟩
    have given := part inside (fun site => List.mem_append_left
      [Site.give value progress exits.function])
    exact readsWithin_append.mpr ⟨given, by simp⟩
  | block scope body each =>
    unfold lowered
    rw [lower_block, sites]
    exact part (readsWithin_loweredAll_of (fun statement member => each statement member exits) _)
      (by simp +contextual)
  | whileLoop test body turn =>
    generalize kept : (whileLoop test body).sites exits progress = all
    have tested := @part _ all _ (test.readsWithin_tested progress.skip.skip)
      (by simp +contextual [← kept, sites])
    have turned := @part _ all _ (turn (exits.within progress.skip.label)
      (test.after progress.skip.skip)) (by simp +contextual [← kept, sites])
    unfold lowered
    rw [lower_whileLoop]
    simp [tested, turned]
  | forLoop init test increment body start next turn =>
    generalize kept : (forLoop init test increment body).sites exits progress = all
    have started := @part _ all _ (start exits progress.skip.skip)
      (by simp +contextual [← kept, sites])
    have tested := @part _ all _ (test.readsWithin_tested (init.after exits progress.skip.skip))
      (by simp +contextual [← kept, sites])
    have turned := @part _ all _ (turn (exits.within progress.skip.label)
      (test.after (init.after exits progress.skip.skip))) (by simp +contextual [← kept, sites])
    have stepped := @part _ all _ (next exits (body.after (exits.within progress.skip.label)
      (test.after (init.after exits progress.skip.skip)))) (by simp +contextual [← kept, sites])
    unfold lowered
    rw [lower_forLoop]
    simp [started, tested, turned, stepped]
  | ifThen test body taken =>
    generalize kept : (ifThen test body).sites exits progress = all
    have tested := @part _ all _ (test.readsWithin_tested progress.skip)
      (by simp +contextual [← kept, sites])
    have chosen := @part _ all _ (taken exits (test.after progress.skip))
      (by simp +contextual [← kept, sites])
    unfold lowered
    rw [lower_ifThen]
    simp [tested, chosen]
  | ifElse test body otherwise taken other =>
    generalize kept : (ifElse test body otherwise).sites exits progress = all
    have tested := @part _ all _ (test.readsWithin_tested progress.skip)
      (by simp +contextual [← kept, sites])
    have chosen := @part _ all _ (taken exits (test.after progress.skip))
      (by simp +contextual [← kept, sites])
    have avoided := @part _ all _ (other exits (body.after exits (test.after progress.skip)).skip)
      (by simp +contextual [← kept, sites])
    unfold lowered
    rw [lower_ifElse]
    simp [tested, chosen, avoided]

end Statement

namespace Function

/-- A function keeps the constants of its literal nodes, in order. -/
theorem literals_last (function : Function) (symbols : SymbolTable) (nextLabel : Nat) :
    (function.last symbols nextLabel).literals = constantsAt (function.sites symbols nextLabel) := by
  have none : (function.entry symbols nextLabel).literals = [] := rfl
  have kept := Statement.literals_afterAll_of
    (fun statement (_ : statement ∈ function.body) =>
      statement.literals_after { function := ⟨nextLabel⟩ }) (function.entry symbols nextLabel)
  rwa [none, List.nil_append] at kept

/-- The body of a function reads no constants but those of its own literal nodes. -/
theorem readsWithin_bodyCode (function : Function) (symbols : SymbolTable) (nextLabel : Nat) :
    ReadsWithin (KeptAt (function.sites symbols nextLabel)) (function.bodyCode symbols nextLabel) :=
  Statement.readsWithin_loweredAll_of
    (fun statement _ => statement.readsWithin_lowered { function := ⟨nextLabel⟩ }) _

end Function

end SmallC
