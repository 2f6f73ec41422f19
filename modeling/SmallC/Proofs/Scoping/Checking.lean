import SmallC.Proofs.Scoping.Tables
import SmallC.Proofs.Typing.Nodes

/-! Checking names: a checker that is in step with a source declares and resolves names as the
scoping of the source says. -/

namespace SmallC

namespace Checker

/-- The scopes that are open for a checker. -/
def scoping (checker : Checker) : Scoping := checker.symbols.scoping

/-- A checker has gone on, and the source to the given scoping with it. -/
structure Follows (old new : Checker) (scoping : Scoping) : Prop where
  /-- The checker sees the scopes of the source. -/
  scoping : new.scoping = scoping
  /-- It has done nothing else to its table. -/
  declares : old.symbols.Declares new.symbols

variable {old middle new checker : Checker} {scope : ScopeId} {name : String} {type : Ty}

/-- A checker that leaves its table alone stays where it is. -/
theorem Follows.stay (same : new.symbols = old.symbols) : old.Follows new old.scoping := by
  refine ⟨congrArg SymbolTable.scoping same, ?_⟩
  rw [same]
  exact .refl _

theorem Follows.trans {first second : Scoping} (early : old.Follows middle first)
    (late : middle.Follows new second) : old.Follows new second :=
  ⟨late.scoping, early.declares.trans late.declares⟩

theorem follows_openScope (checker : Checker) :
    checker.Follows checker.openScope.2 checker.scoping.enter :=
  ⟨checker.symbols.scoping_openScope, .opening _⟩

theorem follows_closeScope (checker : Checker) :
    checker.Follows checker.closeScope.2 checker.scoping.leave :=
  ⟨checker.symbols.scoping_closeScope, .closing _⟩

/-- Recording a verdict leaves the table alone. -/
theorem symbols_record {α : Type} (verdict : Verdict α) (checker : Checker) :
    (checker.record verdict).2.symbols = checker.symbols := by
  unfold record
  cases verdict.problem? <;> rfl

/-- The current scope is the innermost one of the source. -/
theorem current_eq (checker : Checker) : checker.current = checker.scoping.innermost.scope := by
  unfold current SymbolTable.current? scoping SymbolTable.scoping Scoping.innermost
  cases checker.symbols.active <;> rfl

/-- Scopes that are in force have been opened. -/
theorem lt_of_active (proper : checker.scoping.Proper) (active : scope ∈ checker.symbols.active) :
    scope < checker.symbols.scopes.length := by
  refine proper.opened scope ?_
  rwa [scoping, SymbolTable.scopes_scoping]

/-- The current scope is in force. -/
theorem current_active (proper : checker.scoping.Proper) :
    checker.current ∈ checker.symbols.active := by
  have inside := proper.innermost_mem
  rwa [← current_eq, scoping, SymbolTable.scopes_scoping] at inside

/-- The scope of the unit is in force. -/
theorem unitScope_active (proper : checker.scoping.Proper) :
    unitScope ∈ checker.symbols.active := by
  obtain ⟨inner, rooted⟩ := proper.rooted
  rw [scoping, SymbolTable.scopes_scoping] at rooted
  simp [rooted]

/-- A name that a scope has not declared yet is entered. -/
theorem follows_enter (present : scope < checker.symbols.scopes.length)
    (absent : checker.symbols.find? scope name = none)
    (stored : scope ≠ unitScope → 0 < storageSize type) :
    checker.Follows (checker.enter scope name type).2 (checker.scoping.declareIn scope name) :=
  ⟨SymbolTable.scoping_insert present absent, .entering _ _ rfl stored⟩

/-- Declaring a name again changes nothing. -/
theorem declareIn_known {existing : SymbolId}
    (found : checker.symbols.find? scope name = some existing) :
    checker.scoping.declareIn scope name = checker.scoping := by
  have known : name ∈ checker.symbols.namesOf scope := by
    apply Classical.not_not.mp
    rw [← SymbolTable.find?_eq_none, found]
    nofun
  unfold scoping SymbolTable.scoping Scoping.declareIn
  rw [List.map_map]
  congr 1
  refine List.map_congr_left fun other _ => ?_
  -- Only the level of the scope could change, and it has the name.
  by_cases here : other = scope
  · subst here
    simp only [Function.comp_apply, if_pos, Level.declare, known]
  · simp only [Function.comp_apply, if_neg here]

/-- A variable is declared in the innermost scope. -/
theorem follows_declareVariable (proper : checker.scoping.Proper) (stored : 0 < storageSize type) :
    checker.Follows (checker.declareVariable name type).2 (checker.scoping.declare name) := by
  unfold declareVariable Scoping.declare
  rw [← current_eq]
  dsimp only
  cases found : checker.symbols.find? checker.current name with
  | none => exact follows_enter (lt_of_active proper (current_active proper)) found fun _ => stored
  | some existing =>
    -- A second declaration is at most reported.
    rw [declareIn_known found]
    dsimp only
    split
    · exact .stay rfl
    · split <;> exact .stay rfl

/-- A function is declared in the unit, and the symbol that stands for it has its name. -/
theorem follows_declareFunction (proper : checker.scoping.Proper) :
    checker.Follows (checker.declareFunction name type).2
        (checker.scoping.declareIn unitScope name) ∧
      (checker.declareFunction name type).1.scope = unitScope ∧
      ∃ declared, (checker.declareFunction name type).2.symbols.declared?
        (checker.declareFunction name type).1 = some (name, declared) := by
  unfold declareFunction
  -- Either the name is new to the unit, or it stays what it is.
  cases found : checker.symbols.find? unitScope name with
  | none =>
    have present := lt_of_active proper (unitScope_active proper)
    exact ⟨follows_enter present found (by simp), rfl, type,
      SymbolTable.declared_insert_self { name, type } present⟩
  | some existing =>
    rw [declareIn_known found]
    have known := SymbolTable.declared_of_find found
    have outermost : existing.scope = unitScope := by
      obtain ⟨slot, -, rfl⟩ := Option.map_eq_some_iff.mp found
      rfl
    dsimp only
    split <;> exact ⟨.stay rfl, outermost, known⟩

/-- A function with a body is declared like one without. -/
theorem follows_defineFunction (proper : checker.scoping.Proper) :
    checker.Follows (checker.defineFunction name type).2
        (checker.scoping.declareIn unitScope name) ∧
      (checker.defineFunction name type).1.scope = unitScope ∧
      ∃ declared, (checker.defineFunction name type).2.symbols.declared?
        (checker.defineFunction name type).1 = some (name, declared) := by
  -- Neither reports nor the names of functions with bodies are part of the table.
  have declares (other : Checker) (same : other.symbols = checker.symbols) :
      checker.Follows (other.declareDefined name type).2
          (checker.scoping.declareIn unitScope name) ∧
        (other.declareDefined name type).1.scope = unitScope ∧
        ∃ declared, (other.declareDefined name type).2.symbols.declared?
          (other.declareDefined name type).1 = some (name, declared) := by
    have seen : scoping { other with defined := name :: other.defined } = checker.scoping :=
      congrArg SymbolTable.scoping same
    have started : (scoping { other with defined := name :: other.defined }).Proper :=
      seen.symm ▸ proper
    obtain ⟨follows, outermost, known⟩ := @follows_declareFunction _ name type started
    exact ⟨⟨seen ▸ follows.scoping, same ▸ follows.declares⟩, outermost, known⟩
  unfold defineFunction
  split
  · dsimp only
    split
    · next existing found =>
      have outermost : existing.scope = unitScope := by
        obtain ⟨slot, -, rfl⟩ := Option.map_eq_some_iff.mp found
        rfl
      rw [@declareIn_known checker _ _ _ found]
      exact ⟨.stay rfl, outermost, SymbolTable.declared_of_find found⟩
    · exact declares _ rfl
  · exact declares _ rfl

/-- Forgetting the parameters of a function without a body leaves the scopes around them. -/
theorem scoping_closeParameters (proper : checker.scoping.Proper) :
    checker.closeParameters.scoping = checker.scoping.leave := by
  have closed := (follows_closeScope checker).scoping
  unfold closeParameters
  dsimp only
  split
  · exact closed
  · refine (SymbolTable.scoping_discard ?_).trans closed
    -- The scope that is closed is newer than those that stay open.
    have ordered := proper.ordered
    rw [scoping, SymbolTable.scopes_scoping] at ordered
    change (checker.symbols.current?.getD unitScope) ∉ checker.symbols.active.tail
    unfold SymbolTable.current?
    cases held : checker.symbols.active with
    | nil => simp
    | cons scope outer =>
      rw [held] at ordered
      intro present
      exact Nat.lt_irrefl _ ((List.pairwise_cons.mp ordered).1 scope present)

/-- Forgetting the parameters of a function without a body leaves a table ready. -/
theorem ready_closeParameters (ready : checker.symbols.Ready) :
    checker.closeParameters.symbols.Ready := by
  have closed := (follows_closeScope checker).declares.ready ready
  unfold closeParameters
  dsimp only
  split
  · exact closed
  · exact closed.discard _

/-- A checker has gone on along names that were used, and its symbols are among theirs in order. -/
structure Traces (old new : Checker) (symbols : List SymbolId) (walked : List Use × Scoping) : Prop
    extends Follows old new walked.2 where
  /-- The symbols stand for names that were used. -/
  symbols : symbols.Sublist (walked.1.map Use.symbol)
  /-- Every name that was used is the one its symbol was declared with. -/
  known : ∀ use ∈ walked.1, ∃ declared,
    new.symbols.declared? use.symbol = some (use.spelling, declared)

theorem Traces.nothing (checker : Checker) : checker.Traces checker [] ([], checker.scoping) :=
  ⟨.stay rfl, .slnil, by simp⟩

/-- A name is resolved to the symbol that it stands for. -/
theorem traces_resolve (proper : checker.scoping.Proper) (name : String) :
    checker.Traces (checker.resolve name).2 [(checker.resolve name).1]
      (Scoped.use name checker.scoping) := by
  unfold resolve Scoped.use
  have looked := checker.symbols.lookup?_eq name
  change _ = checker.scoping.denotes? name at looked
  cases found : checker.symbols.lookup? name with
  | some symbol =>
    rw [← looked, found]
    refine ⟨.stay rfl, List.Sublist.refl _, ?_⟩
    intro use member
    rw [List.mem_singleton.mp member]
    exact SymbolTable.declared_of_lookup found
  | none =>
    rw [← looked, found]
    -- A name that no open scope has is in particular not in the innermost one.
    have present := lt_of_active proper (current_active proper)
    have absent : checker.symbols.find? checker.current name = none :=
      List.findSome?_eq_none_iff.mp found _ (current_active proper)
    have slot : (checker.symbols.symbolsOf checker.current).length =
        checker.scoping.innermost.names.length := by
      have active := current_active proper
      unfold current SymbolTable.current? scoping SymbolTable.scoping Scoping.innermost at *
      cases held : checker.symbols.active with
      | nil => simp [held] at active
      | cons scope outer => simp [SymbolTable.namesOf]
    have entered : (checker.enter checker.current name .error).1 =
        ⟨checker.scoping.innermost.scope, checker.scoping.innermost.names.length⟩ := by
      rw [← slot, ← current_eq]
      rfl
    have follows : checker.Follows (checker.enter checker.current name .error).2
        (checker.scoping.declareIn checker.current name) :=
      follows_enter present absent fun _ => Nat.succ_pos 3
    refine ⟨⟨?_, follows.declares⟩, ?_, ?_⟩
    · refine follows.scoping.trans ?_
      rw [current_eq]
      rfl
    · change [(checker.enter checker.current name .error).1].Sublist _
      rw [entered]
      exact .refl _
    · intro use member
      rw [List.mem_singleton.mp member, ← entered]
      exact ⟨.error, SymbolTable.declared_insert_self { name, type := .error } present⟩

/-- What was known stays known. -/
theorem Traces.both {symbols others : List SymbolId} {first second : Scoped (List Use)}
    (early : old.Traces middle symbols (first old.scoping))
    (late : middle.Traces new others (second middle.scoping)) :
    old.Traces new (symbols ++ others) (Scoped.both first second old.scoping) := by
  have reached := early.scoping
  rw [Scoped.both_eq, ← reached]
  -- The second part only declares more, so it knows all that the first one knew.
  refine ⟨early.toFollows.trans late.toFollows, ?_, ?_⟩
  · rw [List.map_append]
    exact early.symbols.append late.symbols
  · intro use member
    rcases List.mem_append.mp member with before | after
    · obtain ⟨declared, known⟩ := early.known use before
      exact ⟨declared, late.declares.keeps _ _ known⟩
    · exact late.known use after

/-- Fewer symbols may be kept, and the table is all that matters of a checker. -/
theorem Traces.less {symbols kept : List SymbolId} {walked : List Use × Scoping}
    (traces : old.Traces middle symbols walked) (less : kept.Sublist symbols)
    (same : new.symbols = middle.symbols) : old.Traces new kept walked := by
  obtain ⟨⟨scoping, declares⟩, traced, known⟩ := traces
  refine ⟨⟨?_, same ▸ declares⟩, less.trans traced, same ▸ known⟩
  unfold Checker.scoping at *
  rw [same, scoping]

end Checker

end SmallC
