import SmallC.Proofs.Scoping.Placement

/-! Blocks: each has a site where its variables get the places that they keep. -/

namespace SmallC

/-- The symbols of a block are where the block has placed them. -/
def SymbolTable.Bound (table : SymbolTable) (block : ScopeId × Progress) : Prop :=
  table.symbolsOf block.1 = (block.2.bind block.1).symbols.symbolsOf block.1

/-- What is placed later is in other scopes. -/
theorem SymbolTable.Bound.past {old new : Progress} {scopes : List ScopeId}
    {block : ScopeId × Progress} (bound : old.symbols.Bound block)
    (places : Progress.Places scopes old new) (apart : block.1 ∉ scopes) :
    new.symbols.Bound block := (places.symbolsOf apart).trans bound

/-- There are no blocks inside an expression. -/
@[simp] theorem Expression.blocks_sites (expression : Expression) (progress : Progress) :
    (expression.sites progress).flatMap Site.blocks = [] := by
  refine List.flatMap_eq_nil_iff.mpr fun site member => ?_
  obtain ⟨node, -, reached, -, -, own⟩ := expression.origin progress site member
  cases own <;> rfl

namespace Statement

/-- The blocks of a statement that is lowered from the given progress on, each with the progress
from which it is lowered itself. -/
def blocks (statement : Statement) (exits : Exits) (progress : Progress) :
    List (ScopeId × Progress) := (statement.sites exits progress).flatMap Site.blocks

/-- The blocks of statements that are lowered in order. -/
def blocksAll (statements : List Statement) (exits : Exits) (progress : Progress) :
    List (ScopeId × Progress) := (sitesAll statements exits progress).flatMap Site.blocks

theorem blocksAll_cons (first : Statement) (rest : List Statement) (exits : Exits)
    (progress : Progress) : blocksAll (first :: rest) exits progress =
      first.blocks exits progress ++ blocksAll rest exits (first.after exits progress) := by
  simp [blocksAll, blocks, sitesAll]

section Blocks

variable (exits : Exits) (progress : Progress)

@[simp] theorem blocks_evaluate (value : Expression) :
    (evaluate value).blocks exits progress = [] := by
  simp [blocks, sites]

@[simp] theorem blocks_assign (left right : Expression) :
    (assign left right).blocks exits progress = [] := by
  simp [blocks, sites, Site.blocks]

@[simp] theorem blocks_breakLoop : breakLoop.blocks exits progress = [] := by
  cases held : exits.loop? <;> simp [blocks, sites, held, Site.blocks]

@[simp] theorem blocks_returnValue (value : Expression) :
    (returnValue value).blocks exits progress = [] := by
  simp [blocks, sites, Site.blocks]

theorem blocks_block (scope : ScopeId) (body : List Statement) :
    (block scope body).blocks exits progress =
      (scope, progress) :: blocksAll body exits (progress.bind scope) := by
  simp [blocks, blocksAll, sites, Site.blocks]

theorem blocks_whileLoop (test : Expression) (body : Statement) :
    (whileLoop test body).blocks exits progress =
      body.blocks (exits.within progress.skip.label) (test.after progress.skip.skip) := by
  simp [blocks, sites, Site.blocks]

theorem blocks_forLoop (init : Statement) (test : Expression) (increment body : Statement) :
    (forLoop init test increment body).blocks exits progress =
      let started := test.after (init.after exits progress.skip.skip)
      let inside := exits.within progress.skip.label
      init.blocks exits progress.skip.skip ++ (body.blocks inside started
        ++ increment.blocks exits (body.after inside started)) := by
  simp [blocks, sites, Site.blocks]

theorem blocks_ifThen (test : Expression) (body : Statement) :
    (ifThen test body).blocks exits progress = body.blocks exits (test.after progress.skip) := by
  simp [blocks, sites, Site.blocks]

theorem blocks_ifElse (test : Expression) (body otherwise : Statement) :
    (ifElse test body otherwise).blocks exits progress =
      let entry := test.after progress.skip
      body.blocks exits entry ++ otherwise.blocks exits (body.after exits entry).skip := by
  simp [blocks, sites, Site.blocks]

end Blocks

/-- The blocks of statements are those of their scopes, if that holds of each. -/
theorem perm_blocksAll_of {statements : List Statement} {exits : Exits}
    (each : ∀ statement ∈ statements, ∀ progress : Progress,
      ((statement.blocks exits progress).map Prod.fst).Perm statement.scopes) (progress : Progress) :
    ((blocksAll statements exits progress).map Prod.fst).Perm (scopesOfList statements) := by
  induction statements generalizing progress with
  | nil => exact .refl _
  | cons first rest ih =>
    rw [blocksAll_cons, List.map_append]
    exact (each first (by simp) progress).append
      (ih (fun statement member => each statement (by simp [member])) _)

/-- The blocks of a statement are those of its scopes. -/
theorem perm_blocks (statement : Statement) (exits : Exits) (progress : Progress) :
    ((statement.blocks exits progress).map Prod.fst).Perm statement.scopes := by
  induction statement using inductionOn generalizing exits progress with
  | evaluate | assign | breakLoop | returnValue => simp [scopes]
  | block scope body each =>
    rw [blocks_block, List.map_cons]
    exact (perm_blocksAll_of (fun statement member => each statement member exits) _).cons scope
  | whileLoop test body turn =>
    rw [blocks_whileLoop]
    exact turn _ _
  | forLoop init test increment body start next turn =>
    -- The step after a turn is lowered after the turn, but its blocks are numbered before.
    simp only [blocks_forLoop, List.map_append]
    exact (start _ _).append (((turn _ _).append (next _ _)).trans List.perm_append_comm)
  | ifThen test body taken =>
    rw [blocks_ifThen]
    exact taken _ _
  | ifElse test body otherwise taken other =>
    simp only [blocks_ifElse, List.map_append]
    exact (taken _ _).append (other _ _)

theorem scope_of_block {statement : Statement} {exits : Exits} {progress : Progress}
    {block : ScopeId × Progress} (listed : block ∈ statement.blocks exits progress) :
    block.1 ∈ statement.scopes :=
  (statement.perm_blocks exits progress).mem_iff.mp (List.mem_map_of_mem listed)

/-- After statements every block has its places, if that holds of each. -/
theorem bound_afterAll_of {statements : List Statement} {exits : Exits}
    (each : ∀ statement ∈ statements, statement.scopes.Nodup → ∀ progress : Progress,
      ∀ block ∈ statement.blocks exits progress,
        (statement.after exits progress).symbols.Bound block)
    (distinct : (scopesOfList statements).Nodup) (progress : Progress) :
    ∀ block ∈ blocksAll statements exits progress,
      (afterAll exits statements progress).symbols.Bound block := by
  -- The scopes of one statement are none of the later ones, which leave its blocks where they are.
  induction statements generalizing progress with
  | nil => simp [blocksAll, sitesAll]
  | cons first rest ih =>
    obtain ⟨early, late, apart⟩ := List.nodup_append.mp distinct
    intro block listed
    rw [blocksAll_cons] at listed
    rw [afterAll_cons]
    rcases List.mem_append.mp listed with listed | listed
    · exact (each first (by simp) early progress block listed).past (placesAll rest exits _)
        fun other => apart _ (scope_of_block listed) _ other rfl
    · exact ih (fun statement member => each statement (by simp [member])) late _ block listed

/-- After a statement every block inside has the places that it has given its variables. -/
theorem bound_after {statement : Statement} {exits : Exits} (distinct : statement.scopes.Nodup)
    (progress : Progress) : ∀ block ∈ statement.blocks exits progress,
      (statement.after exits progress).symbols.Bound block := by
  induction statement using inductionOn generalizing exits progress with
  | evaluate | assign | breakLoop | returnValue => simp
  | block scope body each =>
    obtain ⟨outside, distinct⟩ := List.nodup_cons.mp distinct
    rw [blocks_block, after_block]
    intro block listed
    rcases List.mem_cons.mp listed with rfl | listed
    · have bound : (progress.bind scope).symbols.Bound (scope, progress) := rfl
      -- The body places other scopes only.
      exact bound.past (placesAll body exits _) outside
    · exact bound_afterAll_of (fun statement member distinct => each statement member distinct)
        distinct _ block listed
  | whileLoop test body turn =>
    rw [blocks_whileLoop, after_whileLoop]
    exact turn distinct _
  | forLoop init test increment body start next turn =>
    obtain ⟨first, others, apart⟩ := List.nodup_append.mp distinct
    obtain ⟨second, third, beside⟩ := List.nodup_append.mp others
    simp only [blocks_forLoop, after_forLoop]
    intro block listed
    rcases List.mem_append.mp listed with listed | listed
    · -- The first step is followed by the test, the turn and the step after it.
      have outside := apart _ (scope_of_block listed)
      refine SymbolTable.Bound.past ?_ (increment.places exits _)
        fun other => outside _ (List.mem_append_left _ other) rfl
      refine SymbolTable.Bound.past ?_ (body.places _ _)
        fun other => outside _ (List.mem_append_right _ other) rfl
      rw [(test.evaluates _).symbols]
      exact start first _ block listed
    · rcases List.mem_append.mp listed with listed | listed
      · exact (turn third _ block listed).past (increment.places exits _)
          fun other => beside _ other _ (scope_of_block listed) rfl
      · exact next second _ block listed
  | ifThen test body taken =>
    rw [blocks_ifThen, after_ifThen]
    exact taken distinct _
  | ifElse test body otherwise taken other =>
    obtain ⟨first, second, apart⟩ := List.nodup_append.mp distinct
    simp only [blocks_ifElse, after_ifElse]
    intro block listed
    rcases List.mem_append.mp listed with listed | listed
    -- The other branch places other scopes only.
    · have bound : (body.after exits (test.after progress.skip)).skip.symbols.Bound block :=
        taken first _ block listed
      exact bound.past (otherwise.places exits _)
        fun other => apart _ (scope_of_block listed) _ other rfl
    · exact other second _ block listed

end Statement

end SmallC
