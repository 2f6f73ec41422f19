import SmallC.Proofs.Lowering.Subjects
import SmallC.Proofs.Renaming.Tables

/-! Lowering under other names: where the names that get into the code stay, the code does too. -/

namespace SmallC

/-- Progress whose symbols are under other names. -/
def Progress.renamed (rename : String → String) (progress : Progress) : Progress :=
  { progress with symbols := progress.symbols.renamed rename }

namespace Progress

variable (rename : String → String) (progress : Progress)

theorem skip_renamed : (progress.renamed rename).skip = progress.skip.renamed rename := rfl

theorem label_renamed : (progress.renamed rename).label = progress.label := rfl

/-- Variables get the same places under other names. -/
theorem bind_renamed (scope : ScopeId) :
    (progress.renamed rename).bind scope = (progress.bind scope).renamed rename := by
  unfold bind renamed
  rw [Frame.bindLocals_renamed]

end Progress

/-- A step of lowering gives the same under other names. -/
structure Lowering.Blind {α : Type} (rename : String → String) (action : Lowering α)
    (progress : Progress) : Prop where
  /-- The value is the same. -/
  value : (action (progress.renamed rename)).1 = (action progress).1
  /-- So is what has been handed out, but for the names of symbols. -/
  after : (action (progress.renamed rename)).2 = (action progress).2.renamed rename

/-- A step is blind to names when both sides come to the same. -/
theorem Lowering.blind_of {α : Type} {rename : String → String} {action : Lowering α}
    {progress : Progress} {value other : α} {last ended : Progress}
    (one : action progress = (value, last)) (two : action (progress.renamed rename) = (other, ended))
    (same : other = value) (after : ended = last.renamed rename) : action.Blind rename progress := by
  constructor <;> rw [one, two] <;> assumption

namespace Expression

variable {rename : String → String} {table : SymbolTable} {progress : Progress}

/-- The name that a node itself puts into the code stays, be it that of a callee or that of a symbol
without a place in the frame. -/
def Anchored (rename : String → String) (table : SymbolTable) : Expression → Prop
  | .identifier symbol _ => table.offsetOf symbol = 0 → table.Fixed rename symbol
  | .call callee _ _ => table.Fixed rename callee
  | .integer .. | .real _ | .string _ | .unary .. | .step .. | .binary .. => True

theorem operandOf_renamed {symbol : SymbolId}
    (anchored : table.offsetOf symbol = 0 → table.Fixed rename symbol) :
    operandOf (table.renamed rename) symbol = operandOf table symbol := by
  unfold operandOf
  rw [SymbolTable.offsetOf_renamed]
  split
  · next global => rw [SymbolTable.nameOf_renamed (anchored global)]
  · rfl

/-- Converting a value takes no notice of names. -/
theorem blind_convertValue (rename : String → String) (source target : Ty) (value result : Operand)
    (progress : Progress) : Lowering.Blind rename (convertValue source target value result) progress := by
  -- The widths decide; only a scratch word may be taken.
  constructor <;> unfold convertValue <;>
    cases Width.of source <;> cases Width.of target <;> dsimp only
  case value.byte.double | value.long.double | after.byte.double | after.long.double =>
    split <;> rfl
  all_goals rfl

theorem lowered_renamed {expression : Expression}
    (blind : (lower expression).Blind rename progress) :
    expression.lowered (progress.renamed rename) = expression.lowered progress := blind.value

theorem after_renamed {expression : Expression} (blind : (lower expression).Blind rename progress) :
    expression.after (progress.renamed rename) = (expression.after progress).renamed rename :=
  blind.after

/-- Expressions that are each lowered to the same under other names are so together. -/
theorem blindAll_of {expressions : List Expression}
    (each : ∀ expression ∈ expressions, ∀ reached : Progress, reached.symbols = progress.symbols →
      (lower expression).Blind rename reached) : (lowerAll expressions).Blind rename progress := by
  induction expressions generalizing progress with
  | nil => exact Lowering.blind_of (lowerAll_nil _) (lowerAll_nil _) rfl rfl
  | cons first rest ih =>
    -- The first expression leaves the symbols alone, so the others start from the same ones.
    have here := each first (by simp) progress rfl
    have symbols := (first.evaluates progress).symbols
    have others : (lowerAll rest).Blind rename (first.after progress) :=
      ih fun expression member reached same =>
        each expression (by simp [member]) reached (same.trans symbols)
    refine Lowering.blind_of (lowerAll_cons ..) (lowerAll_cons ..) ?_ ?_ <;> rw [after_renamed here]
    · rw [lowered_renamed here]
      exact congrArg (_ :: ·) others.value
    · exact others.after

/-- A place is the same under other names if what is computed to reach it is. -/
theorem blind_located {operand : Expression} (target : (lower operand.target).Blind rename progress) :
    (lowerPlace operand).Blind rename progress := by
  rcases operand.target_cases with ⟨pointer, pointed, rfl⟩ | ⟨itself, direct⟩
  · exact ⟨congrArg Lowered.pointed target.value, target.after⟩
  · rw [itself] at target
    exact Lowering.blind_of (lowerPlace_itself _ direct) (lowerPlace_itself _ direct)
      (congrArg Lowered.itself target.value) target.after

theorem located_renamed {operand : Expression}
    (target : (lower operand.target).Blind rename progress) :
    operand.located (progress.renamed rename) = operand.located progress :=
  (blind_located target).value

theorem locatedAfter_renamed {operand : Expression}
    (target : (lower operand.target).Blind rename progress) :
    operand.locatedAfter (progress.renamed rename) = (operand.locatedAfter progress).renamed rename :=
  (blind_located target).after

/-- A call is lowered to the same if its arguments are and the name of the callee stays. -/
theorem blind_call {callee : SymbolId} {arguments : List Expression} {type : Ty}
    (all : (lowerAll arguments).Blind rename progress)
    (fixed : progress.symbols.Fixed rename callee) :
    (lower (.call callee arguments type)).Blind rename progress := by
  have values : loweredAll arguments (progress.renamed rename) = loweredAll arguments progress :=
    all.value
  have last : afterAll arguments (progress.renamed rename) =
      (afterAll arguments progress).renamed rename := all.after
  -- The callee is named after the arguments, which leave the symbols alone.
  have called : ((afterAll arguments progress).symbols.renamed rename).nameOf callee =
      (afterAll arguments progress).symbols.nameOf callee := by
    rw [(evaluatesAll arguments progress).symbols]
    exact SymbolTable.nameOf_renamed fixed
  refine Lowering.blind_of (lower_call ..) (lower_call ..) ?_ ?_
  · rw [passing, values, last]
    unfold Progress.reserve Progress.renamed
    rw [called]
    rfl
  · rw [last]
    rfl

/-- A node that is no decision is lowered to the same if its parts are. -/
theorem blind_node {expression : Expression} (plain : expression.isDecision = false)
    (parts : ∀ part ∈ expression.parts, ∀ reached : Progress, reached.symbols = progress.symbols →
      (lower part).Blind rename reached) (anchored : expression.Anchored rename progress.symbols) :
    (lower expression).Blind rename progress := by
  -- What a node adds to its parts depends on their values, on places and on labels only.
  cases expression with
  | integer => exact Lowering.blind_of (lower_integer ..) (lower_integer ..) rfl rfl
  | real => exact Lowering.blind_of (lower_real ..) (lower_real ..) rfl rfl
  | string => exact Lowering.blind_of (lower_string ..) (lower_string ..) rfl rfl
  | identifier symbol type =>
    refine Lowering.blind_of (lower_identifier ..) (lower_identifier ..) ?_ rfl
    exact congrArg (Lowered.mk []) (operandOf_renamed anchored)
  | call callee arguments type => exact blind_call (blindAll_of parts) anchored
  | unary op operand type =>
    cases op with
    | address =>
      have place := parts operand.target (List.mem_singleton_self _) progress rfl
      constructor <;>
        rw [lower_address, lower_address, located_renamed place, locatedAfter_renamed place] <;> rfl
    | not =>
      have below := parts operand (List.mem_singleton_self _) progress rfl
      constructor <;> rw [lower_not, lower_not, lowered_renamed below, after_renamed below] <;> rfl
    | negate =>
      have below := parts operand (List.mem_singleton_self _) progress rfl
      constructor <;> rw [lower_negate, lower_negate, lowered_renamed below, after_renamed below] <;>
        rfl
    | dereference =>
      have below := parts operand (List.mem_singleton_self _) progress rfl
      constructor <;>
        rw [lower_dereference, lower_dereference, lowered_renamed below, after_renamed below] <;> rfl
    | cast =>
      have below := parts operand (List.mem_singleton_self _) progress rfl
      have converted := blind_convertValue rename operand.type type (operand.lowered progress).value
        ((operand.after progress).slot type) ((operand.after progress).take type)
      refine Lowering.blind_of (lower_cast ..) (lower_cast ..) ?_ ?_
      · rw [lowered_renamed below, after_renamed below]
        exact congrArg (fun code => Lowered.mk ((operand.lowered progress).code ++ code)
          ((operand.after progress).slot type)) converted.value
      · rw [lowered_renamed below, after_renamed below]
        exact converted.after
  | step op scale operand type =>
    have place := parts operand.target (List.mem_singleton_self _) progress rfl
    constructor <;>
      rw [lower_step, lower_step, located_renamed place, locatedAfter_renamed place] <;> rfl
  | binary op left right type =>
    obtain ⟨conjunction, disjunction⟩ := operator_strict plain
    have one := parts left (by simp [Expression.parts]) progress rfl
    have two := parts right (by simp [Expression.parts]) (left.after progress)
      (left.evaluates progress).symbols
    refine Lowering.blind_of (lower_binary _ conjunction disjunction ..)
      (lower_binary _ conjunction disjunction ..) ?_ ?_
    · rw [after_renamed one, after_renamed two, lowered_renamed one, lowered_renamed two]
      rfl
    · rw [after_renamed one, after_renamed two]
      rfl

/-- An expression is lowered to the same if the names that its nodes put into the code stay. -/
theorem blind (expression : Expression) (progress : Progress)
    (anchored : ∀ node ∈ expression.nodes, node.Anchored rename progress.symbols) :
    (lower expression).Blind rename progress := by
  -- By induction on parts; all nodes are lowered under the symbols that the first one sees.
  induction expression using inductionOnParts generalizing progress with
  | strict expression plain ih =>
    refine blind_node plain (fun part member reached same => ?_) (anchored _ (self_mem_nodes _))
    exact ih part member reached fun node inside =>
      same ▸ anchored node (nodes_part_subset member inside)
  | decision either left right type first second =>
    rw [nodes] at anchored
    have one := first (progress.enter type) fun node inside =>
      anchored node (List.mem_cons_of_mem _ (List.mem_append_left _ inside))
    have symbols := (left.evaluates (progress.enter type)).symbols
    have two := second (left.after (progress.enter type)) fun node inside =>
      symbols ▸ anchored node (List.mem_cons_of_mem _ (List.mem_append_right _ inside))
    have entered : (progress.renamed rename).enter type = (progress.enter type).renamed rename := rfl
    refine Lowering.blind_of (lower_decision ..) (lower_decision ..) ?_ ?_ <;>
      rw [entered, after_renamed one]
    · rw [lowered_renamed one, lowered_renamed two]
      rfl
    · exact two.after

end Expression

/-- The names that what a site is about puts into the code stay. -/
def Site.Anchored (rename : String → String) (site : Site) : Prop :=
  ∀ subject ∈ site.subjects, ∀ node ∈ subject.1.nodes, node.Anchored rename subject.2.symbols

/-- An expression is lowered to the same if the names that its sites put into the code stay. -/
theorem Expression.blind_of_sites {rename : String → String} {expression : Expression}
    {progress : Progress} (anchored : ∀ site ∈ expression.sites progress, site.Anchored rename) :
    (lower expression).Blind rename progress := by
  refine expression.blind progress ?_
  -- A node that is no decision has a last site about itself, and a decision tests both operands.
  cases plain : expression.isDecision with
  | false =>
    rw [sites_strict progress plain] at anchored
    exact anchored (.node expression progress) (by simp) (expression, progress)
      (List.mem_singleton_self _)
  | true =>
    obtain ⟨either, left, right, type, rfl⟩ := decision_cases plain
    rw [sites_decision, Site.decision] at anchored
    have one := anchored (.test left (progress.enter type) (if either then .jne else .je)
      progress.label) (by simp) (left, progress.enter type) (List.mem_singleton_self _)
    have two := anchored (.test right (left.after (progress.enter type))
      (if either then .jne else .je) progress.label) (by simp)
      (right, left.after (progress.enter type)) (List.mem_singleton_self _)
    rw [(left.evaluates _).symbols] at two
    intro node inside
    rw [nodes] at inside
    rcases List.mem_cons.mp inside with rfl | below
    · trivial
    · exact (List.mem_append.mp below).elim (one node) (two node)

namespace Statement

variable {rename : String → String} {exits : Exits} {progress : Progress}

theorem lowered_renamed {statement : Statement}
    (blind : (lowerStatement exits statement).Blind rename progress) :
    statement.lowered exits (progress.renamed rename) = statement.lowered exits progress :=
  blind.value

theorem after_renamed {statement : Statement}
    (blind : (lowerStatement exits statement).Blind rename progress) :
    statement.after exits (progress.renamed rename) =
      (statement.after exits progress).renamed rename := blind.after

/-- A condition is tested by the same code under other names. -/
theorem tested_renamed {test : Expression} (blind : (lower test).Blind rename progress) :
    test.tested (progress.renamed rename) = test.tested progress := by
  unfold Expression.tested
  rw [Expression.lowered_renamed blind]

/-- Statements that are each lowered to the same under other names are so together. -/
theorem blindAll_of {statements : List Statement}
    (each : ∀ statement ∈ statements, ∀ progress : Progress,
      (∀ site ∈ statement.sites exits progress, site.Anchored rename) →
        (lowerStatement exits statement).Blind rename progress)
    (anchored : ∀ site ∈ sitesAll statements exits progress, site.Anchored rename) :
    (lowerStatements exits statements).Blind rename progress := by
  induction statements generalizing progress with
  | nil => exact Lowering.blind_of (lowerAll_nil ..) (lowerAll_nil ..) rfl rfl
  | cons first rest ih =>
    rw [sitesAll] at anchored
    -- The sites of the first statement are in front of those of the others.
    have here := each first (by simp) progress fun site member =>
      anchored site (List.mem_append_left _ member)
    have others : (lowerStatements exits rest).Blind rename (first.after exits progress) :=
      ih (fun statement member => each statement (by simp [member])) fun site member =>
        anchored site (List.mem_append_right _ member)
    refine Lowering.blind_of (lowerAll_cons ..) (lowerAll_cons ..) ?_ ?_ <;> rw [after_renamed here]
    · rw [lowered_renamed here]
      exact congrArg (_ ++ ·) others.value
    · exact others.after

/-- A statement is lowered to the same if the names that its sites put into the code stay. -/
theorem blind (statement : Statement) (exits : Exits) (progress : Progress)
    (anchored : ∀ site ∈ statement.sites exits progress, site.Anchored rename) :
    (lowerStatement exits statement).Blind rename progress := by
  -- Every part starts from progress that differs in names only, and its sites are among the whole's.
  induction statement using inductionOn generalizing exits progress with
  | evaluate value =>
    rw [sites] at anchored
    have computed := Expression.blind_of_sites anchored
    refine Lowering.blind_of (lower_evaluate ..) (lower_evaluate ..) ?_ computed.after
    rw [Expression.lowered_renamed computed]
  | assign left right =>
    rw [sites, List.forall_mem_append, List.forall_mem_append] at anchored
    obtain ⟨valued, reached, -⟩ := anchored
    have value := Expression.blind_of_sites valued
    have place := Expression.blind_of_sites reached
    refine Lowering.blind_of (lower_assign ..) (lower_assign ..) ?_ ?_ <;>
      rw [Expression.after_renamed value]
    · rw [Expression.lowered_renamed value, Expression.located_renamed place]
    · rw [Expression.locatedAfter_renamed place]
  | breakLoop => exact Lowering.blind_of (lower_breakLoop ..) (lower_breakLoop ..) rfl rfl
  | returnValue value =>
    rw [sites, List.forall_mem_append] at anchored
    have computed := Expression.blind_of_sites anchored.1
    refine Lowering.blind_of (lower_returnValue ..) (lower_returnValue ..) ?_ computed.after
    rw [Expression.lowered_renamed computed]
  | block scope body each =>
    rw [sites, List.forall_mem_cons] at anchored
    have inside := blindAll_of (fun statement member => each statement member exits) anchored.2
    refine Lowering.blind_of (lower_block ..) (lower_block ..) ?_ ?_ <;> rw [Progress.bind_renamed]
    · exact inside.value
    · exact inside.after
  | whileLoop test body turn =>
    simp only [sites, List.forall_mem_append, List.forall_mem_cons] at anchored
    obtain ⟨-, tests, -, turns, -⟩ := anchored
    have tested := Expression.blind_of_sites tests
    have turned := turn _ _ turns
    constructor <;> simp only [lower_whileLoop, Progress.skip_renamed, Progress.label_renamed,
      tested_renamed tested, Expression.after_renamed tested, lowered_renamed turned,
      after_renamed turned]
  | forLoop init test increment body start next turn =>
    simp only [sites, List.forall_mem_append, List.forall_mem_cons] at anchored
    obtain ⟨starts, -, tests, -, turns, nexts, -⟩ := anchored
    have started := start _ _ starts
    have tested := Expression.blind_of_sites tests
    have turned := turn _ _ turns
    have stepped := next _ _ nexts
    constructor <;> simp only [lower_forLoop, Progress.skip_renamed, Progress.label_renamed,
      lowered_renamed started, after_renamed started, tested_renamed tested,
      Expression.after_renamed tested, lowered_renamed turned, after_renamed turned,
      lowered_renamed stepped, after_renamed stepped]
  | ifThen test body taken =>
    simp only [sites, List.forall_mem_append, List.forall_mem_cons] at anchored
    obtain ⟨tests, -, takes, -⟩ := anchored
    have tested := Expression.blind_of_sites tests
    have first := taken _ _ takes
    constructor <;> simp only [lower_ifThen, Progress.skip_renamed, Progress.label_renamed,
      tested_renamed tested, Expression.after_renamed tested, lowered_renamed first,
      after_renamed first]
  | ifElse test body otherwise taken other =>
    simp only [sites, List.forall_mem_append, List.forall_mem_cons] at anchored
    obtain ⟨tests, -, takes, -, -, others, -⟩ := anchored
    have tested := Expression.blind_of_sites tests
    have first := taken _ _ takes
    have second := other _ _ others
    constructor <;> simp only [lower_ifElse, Progress.skip_renamed, Progress.label_renamed,
      tested_renamed tested, Expression.after_renamed tested, lowered_renamed first,
      after_renamed first, lowered_renamed second, after_renamed second]

end Statement

/-- The body of a function starts at the same places under other names. -/
theorem Function.entry_renamed (rename : String → String) (function : Function) (table : SymbolTable)
    (nextLabel : Nat) : function.entry (table.renamed rename) nextLabel =
      (function.entry table nextLabel).renamed rename := by
  unfold entry Progress.renamed
  rw [Frame.bindParameters_renamed, Frame.bindLocals_renamed]

/-- A function is written in the same way if its own name stays and so do those that the sites of
its body put into the code. -/
theorem generateFunction_renamed {rename : String → String} {function : Function}
    {table : SymbolTable} {generated : Generated} (called : table.Fixed rename function.symbol)
    (anchored : ∀ site ∈ function.sites table generated.nextLabel, site.Anchored rename) :
    generateFunction function (table.renamed rename) generated =
      ((generateFunction function table generated).1.renamed rename,
        (generateFunction function table generated).2) := by
  -- The body is lowered alike; the rest of the function shows its own name only.
  have body : (lowerStatements { function := ⟨generated.nextLabel⟩ } function.body).Blind rename
      (function.entry table generated.nextLabel) :=
    Statement.blindAll_of (fun statement _ => statement.blind _) anchored
  have code : function.bodyCode (table.renamed rename) generated.nextLabel =
      function.bodyCode table generated.nextLabel := by
    unfold Function.bodyCode
    rw [Function.entry_renamed]
    exact body.value
  have last : function.last (table.renamed rename) generated.nextLabel =
      (function.last table generated.nextLabel).renamed rename := by
    unfold Function.last
    rw [Function.entry_renamed]
    exact body.after
  rw [generateFunction_eq, generateFunction_eq, SymbolTable.nameOf_renamed called, code, last]
  rfl

end SmallC
