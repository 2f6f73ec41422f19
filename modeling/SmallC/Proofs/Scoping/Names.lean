import Mathlib
import SmallC.Proofs.Derivations.Units

/-! Names of a source: the scopes open at each point, what they have declared by then, and the
symbol that each written name stands for there. -/

namespace SmallC

/-- A scope that is open, with the names it has declared so far in order. -/
structure Level where
  /-- The number of the scope. -/
  scope : ScopeId
  /-- The names. -/
  names : List String

namespace Level

/-- The symbol of a name, if the scope has declared it. -/
def find? (level : Level) (name : String) : Option SymbolId :=
  (level.names.idxOf? name).map (⟨level.scope, ·⟩)

/-- Declare a name, which does nothing where it is declared already. -/
def declare (level : Level) (name : String) : Level :=
  if name ∈ level.names then level else { level with names := level.names ++ [name] }

end Level

/-- The scopes that are open at a point of a source. -/
structure Scoping where
  /-- How many scopes have been opened up to this point. -/
  opened : Nat
  /-- The open ones, the innermost first. -/
  levels : List Level

namespace Scoping

/-- At the start of a unit only its own scope is open. -/
def start : Scoping := ⟨1, [⟨unitScope, []⟩]⟩

/-- The numbers of the open scopes. -/
def scopes (scoping : Scoping) : List ScopeId := scoping.levels.map Level.scope

/-- The innermost open scope. -/
def innermost (scoping : Scoping) : Level := scoping.levels.head?.getD ⟨unitScope, []⟩

/-- Open a scope inside the others. -/
def enter (scoping : Scoping) : Scoping :=
  ⟨scoping.opened + 1, ⟨scoping.opened, []⟩ :: scoping.levels⟩

/-- Close the innermost scope. -/
def leave (scoping : Scoping) : Scoping := { scoping with levels := scoping.levels.tail }

/-- Declare a name in the open scope of the number. -/
def declareIn (scoping : Scoping) (scope : ScopeId) (name : String) : Scoping :=
  { scoping with levels := scoping.levels.map fun level =>
      if level.scope = scope then level.declare name else level }

/-- Declare a name in the innermost open scope. -/
def declare (scoping : Scoping) (name : String) : Scoping :=
  scoping.declareIn scoping.innermost.scope name

/-- Declare names in order. -/
def declareAll (scoping : Scoping) (names : List String) : Scoping := names.foldl declare scoping

/-- The symbol of a name in the innermost open scope that has declared it. -/
def denotes? (scoping : Scoping) (name : String) : Option SymbolId :=
  scoping.levels.findSome? (·.find? name)

end Scoping

/-- A name that is written in a source, and the symbol that it stands for there. -/
structure Use where
  /-- The name. -/
  spelling : String
  /-- The symbol. -/
  symbol : SymbolId

/-- A walk along a source that keeps account of the open scopes. -/
abbrev Scoped := StateM Scoping

namespace Scoped

/-- Use a name, which declares it in the innermost open scope if no open scope has it. -/
def use (name : String) : Scoped (List Use) := fun scoping =>
  match scoping.denotes? name with
  | some symbol => ([⟨name, symbol⟩], scoping)
  | none =>
    let level := scoping.innermost
    ([⟨name, ⟨level.scope, level.names.length⟩⟩], scoping.declare name)

/-- What is used in one part and then in another. -/
def both (first second : Scoped (List Use)) : Scoped (List Use) := do
  let uses ← first
  let others ← second
  return uses ++ others

end Scoped

mutual

/-- The names used in a phrase, in order. -/
def Phrase.uses : Phrase → Scoped (List Use)
  | .literal _ | .sizeofType _ => return []
  | .name spelling => Scoped.use spelling
  | .call callee arguments => Scoped.both (Scoped.use callee) (Phrase.usesAll arguments)
  | .unary _ operand | .step _ operand => operand.uses
  | .subscript left right | .binary _ left right => Scoped.both left.uses right.uses

/-- The names used in phrases, in order. -/
def Phrase.usesAll : List Phrase → Scoped (List Use)
  | [] => return []
  | first :: rest => Scoped.both first.uses (Phrase.usesAll rest)

end

/-- The names that a declaration declares. -/
def Declaration.names (declaration : Declaration) : List String :=
  declaration.declarators.map Declarator.name

mutual

/-- The names used in a statement, in order. -/
def Clause.uses : Clause → Scoped (List Use)
  | .evaluate value | .returnValue value => value.uses
  | .assign left right => Scoped.both left.uses right.uses
  | .breakLoop => return []
  | .block declared body => do
    -- What a block declares is forgotten where it ends.
    modify Scoping.enter
    modify (·.declareAll (declared.flatMap Declaration.names))
    let uses ← Clause.usesAll body
    modify Scoping.leave
    return uses
  | .whileLoop test body | .ifThen test body => Scoped.both test.uses body.uses
  | .forLoop init test increment body =>
    Scoped.both init.uses (Scoped.both test.uses (Scoped.both increment.uses body.uses))
  | .ifElse test body otherwise => Scoped.both test.uses (Scoped.both body.uses otherwise.uses)

/-- The names used in statements, in order. -/
def Clause.usesAll : List Clause → Scoped (List Use)
  | [] => return []
  | first :: rest => Scoped.both first.uses (Clause.usesAll rest)

end

-- A block has a variable of its own, and an unknown name is entered where it is used first.
example : Clause.usesAll [.block [⟨.int, [⟨0, "a", none⟩]⟩] [.evaluate (.name "a")],
      .evaluate (.name "a"), .evaluate (.name "u"), .evaluate (.name "u")]
    ⟨2, [⟨1, ["a"]⟩, ⟨unitScope, []⟩]⟩ =
      ([⟨"a", ⟨2, 0⟩⟩, ⟨"a", ⟨1, 0⟩⟩, ⟨"u", ⟨1, 1⟩⟩, ⟨"u", ⟨1, 1⟩⟩],
        ⟨3, [⟨1, ["a", "u"]⟩, ⟨unitScope, []⟩]⟩) := by
  cbv

/-- The names used in the body of a function, in order. -/
def Definition.uses (definition : Definition) : Scoped (List Use) := do
  -- The body declares its own variables in the scope of the parameters.
  modify Scoping.enter
  modify (·.declareAll (definition.parameters.listed.map Parameter.name))
  modify (·.declareIn unitScope definition.name)
  modify (·.declareAll (definition.declared.flatMap Declaration.names))
  let uses ← Clause.usesAll definition.body
  modify Scoping.leave
  return uses

/-- Declare a variable or a function of the unit. -/
def GlobalDeclarator.declare (scoping : Scoping) : GlobalDeclarator → Scoping
  | .object declarator => scoping.declare declarator.name
  -- The parameters are declared in a scope that ends with them.
  | .prototype _ name parameters =>
    (scoping.enter.declareAll (parameters.listed.map Parameter.name)).leave.declareIn unitScope name

/-- The functions of a unit, each with the names used in it. -/
def Global.usages : List Global → Scoped (List (Definition × List Use))
  | [] => return []
  | .declaration _ declarators :: rest => do
    modify (declarators.foldl GlobalDeclarator.declare)
    Global.usages rest
  | .definition function :: rest => do
    let uses ← function.uses
    return (function, uses) :: (← Global.usages rest)

namespace Scoping

/-- Open scopes lie inside each other, the outermost one being that of the unit. -/
structure Proper (scoping : Scoping) : Prop where
  /-- Inner scopes were opened later. -/
  ordered : scoping.scopes.Pairwise (· > ·)
  /-- Open scopes have been opened. -/
  opened : ∀ scope ∈ scoping.scopes, scope < scoping.opened
  /-- The scope of the unit is around the others. -/
  rooted : ∃ inner, scoping.scopes = inner ++ [unitScope]

/-- The same scopes are open, and some may have been opened meanwhile. -/
structure Returns (old new : Scoping) : Prop where
  /-- The same scopes are open. -/
  scopes : new.scopes = old.scopes
  /-- No scope loses its number. -/
  opened : old.opened ≤ new.opened

theorem proper_start : start.Proper := by
  refine ⟨List.pairwise_singleton _ _, ?_, [], rfl⟩
  intro scope member
  rw [List.mem_singleton.mp member]
  exact Nat.zero_lt_one

theorem Proper.enter {scoping : Scoping} (proper : scoping.Proper) : scoping.enter.Proper := by
  obtain ⟨inner, rooted⟩ := proper.rooted
  refine ⟨List.pairwise_cons.mpr ⟨proper.opened, proper.ordered⟩, ?_, scoping.opened :: inner, ?_⟩
  · intro scope member
    rcases List.mem_cons.mp member with rfl | member
    · exact Nat.lt_succ_self _
    · exact Nat.lt_succ_of_lt (proper.opened scope member)
  · exact congrArg (scoping.opened :: ·) rooted

/-- What is left open is proper as long as anything is. -/
theorem Proper.returns {old new : Scoping} (proper : old.Proper) (returns : old.Returns new) :
    new.Proper := by
  refine ⟨returns.scopes ▸ proper.ordered, ?_, returns.scopes ▸ proper.rooted⟩
  intro scope member
  exact Nat.lt_of_lt_of_le (proper.opened scope (returns.scopes ▸ member)) returns.opened

theorem Returns.refl (scoping : Scoping) : scoping.Returns scoping :=
  ⟨rfl, Nat.le_refl _⟩

theorem Returns.trans {first second third : Scoping} (early : first.Returns second)
    (late : second.Returns third) : first.Returns third :=
  ⟨late.scopes.trans early.scopes, Nat.le_trans early.opened late.opened⟩

/-- A scope that was opened and closed again leaves the others open. -/
theorem Returns.around {old new : Scoping} (inside : old.enter.Returns new) :
    old.Returns new.leave := by
  refine ⟨?_, Nat.le_trans (Nat.le_succ _) inside.opened⟩
  have tail := congrArg List.tail inside.scopes
  unfold Scoping.leave Scoping.scopes at *
  rwa [← List.map_tail] at tail

theorem returns_declareIn (scoping : Scoping) (scope : ScopeId) (name : String) :
    scoping.Returns (scoping.declareIn scope name) := by
  refine ⟨?_, Nat.le_refl _⟩
  unfold declareIn scopes
  rw [List.map_map]
  refine List.map_congr_left fun level _ => ?_
  -- A declaration changes the names of a level and not its number.
  simp only [Function.comp_apply, Level.declare]
  split
  · split <;> rfl
  · rfl

theorem returns_declareAll (scoping : Scoping) (names : List String) :
    scoping.Returns (scoping.declareAll names) := by
  induction names generalizing scoping with
  | nil => exact .refl _
  | cons name rest ih => exact (scoping.returns_declareIn _ name).trans (ih _)

theorem head?_declare (scoping : Scoping) (name : String) :
    (scoping.declare name).levels.head? = scoping.levels.head?.map (·.declare name) := by
  unfold declare declareIn innermost
  cases scoping.levels <;> simp

/-- A scope in which names are declared has each of them once. -/
theorem head?_declareAll (scoping : Scoping) (names : List String) :
    (scoping.enter.declareAll names).levels.head? = some ⟨scoping.opened, names.eraseDups⟩ := by
  obtain ⟨backwards, rfl⟩ : ∃ backwards : List String, names = backwards.reverse :=
    ⟨_, (List.reverse_reverse _).symm⟩
  -- The last of the names is declared after all others.
  induction backwards with
  | nil => rfl
  | cons name earlier ih =>
    rw [List.reverse_cons, declareAll, List.foldl_append]
    change (declare (declareAll _ _) name).levels.head? = _
    rw [head?_declare, ih, Option.map_some, List.eraseDups_append, Level.declare]
    by_cases known : name ∈ earlier
    · simp [known, List.removeAll]
    · simp [known, List.removeAll, List.eraseDups_cons]

/-- A declaration opens no scope. -/
@[simp] theorem opened_declareAll (scoping : Scoping) (names : List String) :
    (scoping.declareAll names).opened = scoping.opened := by
  induction names generalizing scoping with
  | nil => rfl
  | cons name rest ih => exact ih _

/-- The innermost of proper scopes is open. -/
theorem Proper.innermost_mem {scoping : Scoping} (proper : scoping.Proper) :
    scoping.innermost.scope ∈ scoping.scopes := by
  obtain ⟨inner, rooted⟩ := proper.rooted
  unfold scopes innermost at *
  cases held : scoping.levels with
  | nil => simp [held] at rooted
  | cons level outer => simp

/-- What a name stands for is in an open scope. -/
theorem denotes_mem {scoping : Scoping} {name : String} {symbol : SymbolId}
    (found : scoping.denotes? name = some symbol) : symbol.scope ∈ scoping.scopes := by
  obtain ⟨level, present, here⟩ := List.exists_of_findSome?_eq_some found
  obtain ⟨slot, -, rfl⟩ := Option.map_eq_some_iff.mp here
  exact List.mem_map_of_mem present

end Scoping

/-- A walk that only uses names: it opens no scope, and what it uses is in a scope open before. -/
def Scoped.Stays (walk : Scoped (List Use)) : Prop :=
  ∀ scoping : Scoping, scoping.Proper → scoping.Returns (walk scoping).2 ∧
    (walk scoping).2.opened = scoping.opened ∧
    ∀ use ∈ (walk scoping).1, use.symbol.scope ∈ scoping.scopes

namespace Scoped

theorem stays_nothing : Stays (return []) := by
  intro scoping proper
  exact ⟨.refl _, rfl, by simp [pure, StateT.pure]⟩

theorem stays_use (name : String) : (use name).Stays := by
  intro scoping proper
  unfold use
  -- A name without a meaning gets one in the innermost scope.
  cases found : scoping.denotes? name with
  | some symbol =>
    refine ⟨.refl _, rfl, ?_⟩
    intro use member
    rw [List.mem_singleton.mp member]
    exact Scoping.denotes_mem found
  | none =>
    refine ⟨scoping.returns_declareIn _ name, rfl, ?_⟩
    intro use member
    rw [List.mem_singleton.mp member]
    exact proper.innermost_mem

theorem both_eq (first second : Scoped (List Use)) (scoping : Scoping) :
    both first second scoping =
      ((first scoping).1 ++ (second (first scoping).2).1, (second (first scoping).2).2) := rfl

theorem Stays.both {first second : Scoped (List Use)} (early : first.Stays) (late : second.Stays) :
    (Scoped.both first second).Stays := by
  intro scoping proper
  obtain ⟨returns, opened, inside⟩ := early scoping proper
  obtain ⟨returned, unopened, within⟩ := late _ (proper.returns returns)
  refine ⟨returns.trans returned, unopened.trans opened, ?_⟩
  intro use member
  rcases List.mem_append.mp member with member | member
  · exact inside use member
  · exact returns.scopes ▸ within use member

end Scoped

mutual

/-- A phrase only uses names. -/
theorem Phrase.stays_uses : (phrase : Phrase) → phrase.uses.Stays
  | .literal _ | .sizeofType _ => by
    rw [Phrase.uses]
    exact Scoped.stays_nothing
  | .name spelling => by
    rw [Phrase.uses]
    exact Scoped.stays_use spelling
  | .call callee arguments => by
    rw [Phrase.uses]
    exact (Scoped.stays_use callee).both (Phrase.stays_usesAll arguments)
  | .unary _ operand | .step _ operand => by
    rw [Phrase.uses]
    exact operand.stays_uses
  | .subscript left right | .binary _ left right => by
    rw [Phrase.uses]
    exact left.stays_uses.both right.stays_uses

theorem Phrase.stays_usesAll : (phrases : List Phrase) → (Phrase.usesAll phrases).Stays
  | [] => by
    rw [Phrase.usesAll]
    exact Scoped.stays_nothing
  | first :: rest => by
    rw [Phrase.usesAll]
    exact first.stays_uses.both (Phrase.stays_usesAll rest)

end

end SmallC
