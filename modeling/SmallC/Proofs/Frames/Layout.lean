import SmallC.Proofs.Frames.Objects

/-! Layout: everything that a function takes in its frame is placed one below the other. -/

namespace SmallC

variable {function : Function} {table : SymbolTable} {size : Nat}

/-- A temporary fills what is handed out for it. -/
theorem stacked_temporary (type : Ty) (progress : Progress) :
    Stacked progress.frame.offset [function.slot table size (.temporary type progress)]
      (progress.take type).frame.offset := by
  have ends : (function.slot table size (.temporary type progress)).stop = progress.frame.offset :=
    Int.sub_add_cancel _ _
  exact ends ▸ Stacked.single _

/-- A conversion takes a scratch word exactly when it goes through one. -/
theorem after_convertValue (source target : Ty) (value result : Operand) (progress : Progress) :
    (convertValue source target value result progress).2 =
      if usesScratch source target value then progress.take .int else progress := by
  unfold convertValue usesScratch
  cases Width.of source <;> cases Width.of target <;> dsimp only
  case long.double =>
    cases value.isImmediate <;> rfl
  all_goals rfl

namespace Expression

/-- The own site of a node takes its temporary, and a conversion its scratch word below it. -/
theorem lays_own {expression : Expression} (strict : expression.isDecision = false)
    (progress : Progress) : Lays (function.slot table size) (afterAll expression.parts progress)
      [.node expression progress] (expression.after progress) := by
  -- Every node but a conversion takes its temporary alone.
  have alone {node : Expression} (inner : node.isLeaf = false) (plain : node.isDecision = false)
      (unscratched : node.scratch? progress = none) :
      Stacked (afterAll node.parts progress).frame.offset
        ((Site.node node progress).taken.map (function.slot table size))
        ((afterAll node.parts progress).take node.type).frame.offset := by
    simp only [Site.taken, keeps, inner, home, plain, unscratched]
    exact stacked_temporary _ _
  unfold after
  cases expression with
  | integer => exact lower_integer progress .. ▸ lays_still rfl rfl rfl
  | real => exact lower_real progress .. ▸ lays_still rfl rfl rfl
  | string => exact lower_string progress .. ▸ lays_still rfl rfl rfl
  | identifier => exact lower_identifier progress .. ▸ lays_still rfl rfl rfl
  | call callee arguments type =>
    rw [lower_call]
    refine ⟨?_, Nat.le_max_left _ _, ?_⟩
    · rw [List.flatMap_singleton]
      exact alone rfl rfl rfl
    · intro site member
      rw [List.mem_singleton.mp member]
      exact Nat.le_max_right _ _
  | unary op operand type =>
    cases op with
    | not => exact lower_not progress .. ▸ lays_take (alone rfl rfl rfl) rfl rfl
    | negate => exact lower_negate progress .. ▸ lays_take (alone rfl rfl rfl) rfl rfl
    | dereference => exact lower_dereference progress .. ▸ lays_take (alone rfl rfl rfl) rfl rfl
    | address =>
      rw [lower_address]
      dsimp only
      rw [(located_target progress operand).2]
      exact lays_take (alone rfl rfl rfl) rfl rfl
    | cast =>
      rw [lower_cast]
      dsimp only
      rw [after_convertValue]
      cases scratched : usesScratch operand.type type (operand.lowered progress).value with
      | false =>
        have unscratched : (unary .cast operand type).scratch? progress = none := by
          simp [scratch?, scratched]
        exact lays_take (alone rfl rfl unscratched) rfl rfl
      | true =>
        -- The scratch word comes below the temporary, which is taken first.
        have scratch : (unary .cast operand type).scratch? progress =
            some (.temporary .int ((operand.after progress).take type)) := by
          simp [scratch?, scratched]
        have taken : (Site.node (unary .cast operand type) progress).taken =
            [.temporary type (operand.after progress)] ++
              [.temporary .int ((operand.after progress).take type)] := by
          simp only [Site.taken, keeps, scratch]
          rfl
        refine lays_take ?_ rfl rfl
        rw [taken, List.map_append]
        exact (stacked_temporary _ _).append (stacked_temporary _ _)
  | step op scale operand type =>
    rw [lower_step]
    dsimp only
    rw [(located_target progress operand).2]
    exact lays_take (alone rfl rfl rfl) rfl rfl
  | binary op left right type =>
    obtain ⟨conjunction, disjunction⟩ := operator_strict strict
    rw [lower_binary _ conjunction disjunction]
    have unscratched : (binary op left right type).scratch? progress = none := rfl
    exact lays_take (alone rfl strict unscratched) rfl (by cases op <;> rfl)

/-- Expressions that are each laid out are laid out in order. -/
theorem laysAll_of {expressions : List Expression}
    (each : ∀ expression ∈ expressions, ∀ progress : Progress,
      Lays (function.slot table size) progress (expression.sites progress)
        (expression.after progress)) (progress : Progress) :
    Lays (function.slot table size) progress (sitesAll expressions progress)
      (afterAll expressions progress) := by
  induction expressions generalizing progress with
  | nil => exact lays_nil rfl
  | cons first rest ih =>
    rw [sitesAll, afterAll_cons]
    exact (each first (by simp) progress).trans
      (ih (fun expression member => each expression (by simp [member])) _)

/-- The temporaries of an expression are placed one below the other. -/
theorem lays (expression : Expression) (progress : Progress) :
    Lays (function.slot table size) progress (expression.sites progress)
      (expression.after progress) := by
  induction expression using inductionOnParts generalizing progress with
  | strict expression plain ih =>
    rw [sites_strict progress plain]
    exact (laysAll_of ih progress).trans (lays_own plain progress)
  | decision either left right type first second =>
    -- The temporary of the decision is above those of its operands.
    have entered : Lays (function.slot table size) progress [.enter type progress]
        (progress.enter type) :=
      lays_take (@stacked_temporary function table size type progress.skip.skip) rfl rfl
    rw [sites_decision, after_decision]
    exact entered.trans ((first _).trans
      (((second _).trans ((lays_still rfl rfl rfl).behind rfl rfl rfl)).behind rfl rfl rfl))

end Expression

namespace Statement

/-- Statements that are each laid out are laid out in order. -/
theorem laysAll_of {slot : Object → Slot} {statements : List Statement} {exits : Exits}
    (each : ∀ statement ∈ statements, ∀ progress : Progress,
      (∀ block ∈ statement.blocks exits progress,
        Lays slot block.2 [.bind block.1 block.2] (block.2.bind block.1)) →
      Lays slot progress (statement.sites exits progress) (statement.after exits progress))
    (progress : Progress) (bound : ∀ block ∈ blocksAll statements exits progress,
      Lays slot block.2 [.bind block.1 block.2] (block.2.bind block.1)) :
    Lays slot progress (sitesAll statements exits progress)
      (afterAll exits statements progress) := by
  induction statements generalizing progress with
  | nil => exact lays_nil rfl
  | cons first rest ih =>
    rw [blocksAll_cons, List.forall_mem_append] at bound
    rw [sitesAll, afterAll_cons]
    exact (each first (by simp) progress bound.1).trans
      (ih (fun statement member => each statement (by simp [member])) _ bound.2)

/-- What a statement takes is placed one below the other, if that holds of the variables of each of
its blocks. -/
theorem lays {statement : Statement} {exits : Exits} (progress : Progress)
    (bound : ∀ block ∈ statement.blocks exits progress,
      Lays (function.slot table size) block.2 [.bind block.1 block.2] (block.2.bind block.1)) :
    Lays (function.slot table size) progress (statement.sites exits progress)
      (statement.after exits progress) := by
  -- Tests, labels and jumps take nothing, so that only the parts of a statement add to the frame.
  induction statement using inductionOn generalizing exits progress with
  | evaluate value =>
    rw [sites, after_evaluate]
    exact value.lays progress
  | assign left right =>
    rw [sites, after_assign, (Expression.located_target _ left).2]
    exact (right.lays _).trans ((left.target.lays _).trans (lays_still rfl rfl rfl))
  | breakLoop =>
    rw [sites, after_breakLoop]
    cases exits.loop? with
    | none => exact lays_nil rfl
    | some exit => exact lays_still rfl rfl rfl
  | returnValue value =>
    rw [sites, after_returnValue]
    exact (value.lays _).trans (lays_still rfl rfl rfl)
  | block scope body each =>
    rw [blocks_block, List.forall_mem_cons] at bound
    rw [sites, after_block]
    exact bound.1.trans (laysAll_of (fun statement member => each statement member) _ bound.2)
  | whileLoop test body turn =>
    rw [blocks_whileLoop] at bound
    rw [sites, after_whileLoop]
    exact ((test.lays progress.skip.skip).trans (((turn _ bound).trans
      ((lays_still rfl rfl rfl).behind rfl rfl rfl)).behind rfl rfl rfl)).behind rfl rfl rfl
  | forLoop init test increment body start next turn =>
    simp only [blocks_forLoop, List.forall_mem_append] at bound
    rw [sites, after_forLoop]
    have entered : Lays (function.slot table size) progress [] progress.skip.skip := lays_nil rfl
    exact entered.trans ((start _ bound.1).trans (((test.lays _).trans
      (((turn _ bound.2.1).trans ((next _ bound.2.2).trans
        ((lays_still rfl rfl rfl).behind rfl rfl rfl))).behind rfl rfl rfl)).behind rfl rfl rfl))
  | ifThen test body taken =>
    rw [blocks_ifThen] at bound
    rw [sites, after_ifThen]
    have entered : Lays (function.slot table size) progress [] progress.skip := lays_nil rfl
    exact entered.trans ((test.lays _).trans (((taken _ bound).trans
      (lays_still rfl rfl rfl)).behind rfl rfl rfl))
  | ifElse test body otherwise taken other =>
    simp only [blocks_ifElse, List.forall_mem_append] at bound
    rw [sites, after_ifElse]
    have entered : Lays (function.slot table size) progress [] progress.skip := lays_nil rfl
    exact entered.trans ((test.lays _).trans (((taken _ bound.1).trans
      ((((other _ bound.2).trans (lays_still rfl rfl rfl)).behind rfl rfl rfl).behind rfl rfl
        rfl)).behind rfl rfl rfl))

end Statement

/-- The place of a variable in a frame. -/
def Symbol.slot (symbol : Symbol) : Slot := ⟨symbol.offset, storageSize symbol.type⟩

/-- The variables of a scope have the places of its symbols, behind those that are left out. -/
theorem SymbolTable.map_slots (table : SymbolTable) (scope : ScopeId) (skip : Nat)
    {slot : Object → Slot}
    (same : ∀ index symbol, skip ≤ index → (table.symbolsOf scope)[index]? = some symbol →
      slot (.symbol ⟨scope, index⟩) = symbol.slot) :
    (((table.ids scope).drop skip).map Object.symbol).map slot =
      ((table.symbolsOf scope).drop skip).map Symbol.slot := by
  rw [List.map_map]
  exact table.map_ids scope skip same

/-- Variables are placed one below the other. -/
theorem Frame.stacked_placeLocals (frame : Frame) (symbols : List Symbol) :
    Stacked frame.offset ((frame.placeLocals symbols).1.map Symbol.slot)
      (frame.placeLocals symbols).2.offset := by
  induction symbols generalizing frame with
  | nil => exact .nil _
  | cons first rest ih =>
    let allocated := frame.allocate (storageSize first.type)
    have ends : (Symbol.slot { first with offset := allocated.1 }).stop = frame.offset :=
      Int.sub_add_cancel _ _
    exact ends ▸ Stacked.cons (ih allocated.2)

theorem Frame.arguments_placeLocals (frame : Frame) (symbols : List Symbol) :
    (frame.placeLocals symbols).2.arguments = frame.arguments := by
  induction symbols generalizing frame with
  | nil => rfl
  | cons first rest ih => exact ih _

namespace Function

variable (function table) in
/-- The variables of the body. -/
def locals : List Object :=
  ((table.ids function.scope).drop function.parameters).map Object.symbol

variable (function table) in
/-- Everything that has a place of its own below the base of the frame: the variables of the body
and what is taken at each site. -/
def residents (nextLabel : Nat) : List Object :=
  function.locals table ++ (function.sites table nextLabel).flatMap Site.taken

/-- The place of a symbol that is no parameter is that of a variable. -/
theorem slot_symbol {placed : SymbolTable} {id : SymbolId} {symbol : Symbol}
    (found : placed.symbol? id = some symbol) (other : ¬ function.IsParameter id) :
    function.slot placed size (.symbol id) = symbol.slot := by
  simp [slot, Symbol.slot, SymbolTable.offsetOf, SymbolTable.typeOf, found, other]

/-- The variables of the body are placed one below the other. -/
theorem stacked_locals (settled : function.Settled table) (nextLabel : Nat) :
    Stacked 0 ((function.locals table).map
        (function.slot (function.last table nextLabel).symbols size))
      (function.entry table nextLabel).frame.offset := by
  have placed := (symbolsOf_last settled.blocks nextLabel).trans (symbolsOf_entry settled nextLabel)
  -- The variables are those behind the parameters, seen as the function ends.
  have views := (function.last table nextLabel).symbols.map_slots function.scope
    function.parameters fun index symbol behind found =>
      @slot_symbol function size _ _ symbol found fun parameter =>
        Nat.not_lt_of_le behind parameter.2
  rw [(alike_last function table nextLabel).ids, placed,
    List.drop_left' (counted_parameters settled)] at views
  rw [locals, frame_entry settled]
  exact views ▸ Frame.stacked_placeLocals {} _

/-- The variables of a block are placed one below the other. -/
theorem lays_block (settled : function.Settled table) (nextLabel : Nat) {block : ScopeId × Progress}
    (listed : block ∈ function.blocks table nextLabel) :
    Lays (function.slot (function.last table nextLabel).symbols size) block.2
      [.bind block.1 block.2] (block.2.bind block.1) := by
  obtain ⟨scope, progress⟩ := block
  have placed := bound_blocks settled nextLabel _ listed
  have inner : scope ∈ Statement.scopesOfList function.body :=
    (function.perm_blocks table nextLabel).mem_iff.mp (List.mem_map_of_mem listed)
  have known : table.Alike progress.symbols :=
    (function.alike_entry table nextLabel).trans (advances_blocks _ _ _ _ listed).alike
  -- None of the symbols of a block is a parameter, so each has a slot of its own.
  have views := (function.last table nextLabel).symbols.map_slots scope 0
    fun index symbol _ found => @slot_symbol function size _ _ symbol found fun parameter =>
      settled.blocks (parameter.1 ▸ inner)
  refine lays_take ?_ (Frame.arguments_placeLocals _ _) rfl
  rw [Site.taken, known.ids, ← (alike_last function table nextLabel).ids]
  rw [placed, Progress.symbolsOf_bind_self] at views
  exact views ▸ Frame.stacked_placeLocals _ _

/-- Everything that a function keeps below the base is placed one below the other, and there is room
for all arguments that are passed. -/
theorem stacked_residents (settled : function.Settled table) (nextLabel : Nat) :
    Stacked 0 ((function.residents table nextLabel).map
        (function.slot (function.last table nextLabel).symbols size))
      (function.last table nextLabel).frame.offset ∧
    ∀ site ∈ function.sites table nextLabel,
      site.reserved ≤ (function.last table nextLabel).frame.arguments := by
  have body := Statement.laysAll_of (fun statement _ progress => statement.lays progress)
    (function.entry table nextLabel) fun block listed =>
      @lays_block function table size settled nextLabel block listed
  refine ⟨?_, body.reserved⟩
  rw [residents, List.map_append]
  exact (stacked_locals settled nextLabel).append body.stacked

end Function

end SmallC
