import SmallC.Check.Checker
import SmallC.Proofs.Program.Declarations
import SmallC.Proofs.Typing.Operators

/-! Checkers only grow: what has been declared or reported stays, and silence means soundness. -/

namespace SmallC

namespace Checker

/-- Nothing that was reported or declared is lost. -/
structure Grows (old new : Checker) : Prop where
  /-- Reports are never taken back. -/
  quiet : new.reports = [] → old.reports = []
  /-- Declarations are never changed. -/
  keeps : old.symbols.Keeps new.symbols

/-- The checker has grown and is at the same nesting of scopes and loops as before. -/
structure Extends (old new : Checker) : Prop extends Grows old new where
  /-- The same scopes are in force. -/
  active : new.symbols.active = old.symbols.active
  /-- As many loops are open. -/
  loops : new.loops = old.loops
  /-- The same type is to be returned. -/
  returned : new.returned = old.returned

/-- The checkers differ at most in the place that reports name. -/
def Beside (old new : Checker) : Prop := ∃ position, new = old.moveTo position

/-- Silence so far means that no symbol has the error type. -/
structure Sound (checker : Checker) : Prop where
  /-- Symbols get the error type only with a report. -/
  proper : checker.reports = [] → ∀ id declaration,
    checker.symbols.declared? id = some declaration → declaration.2 ≠ .error
  /-- Scopes in force have been opened. -/
  opened : ∀ scope ∈ checker.symbols.active, scope < checker.symbols.scopes.length
  /-- The scope of the unit is always there. -/
  rooted : unitScope < checker.symbols.scopes.length

/-- The expression is typed, unless something has been reported. -/
def Grants (checker : Checker) (expression : Expression) : Prop :=
  checker.reports = [] → expression.Typed checker.symbols

/-- Whether a loop is open. -/
def looping (checker : Checker) : Bool := decide (0 < checker.loops)

/-- The statement is typed where it stands, unless something has been reported. -/
def Admits (checker : Checker) (statement : Statement) : Prop :=
  checker.reports = [] → statement.Typed checker.symbols checker.returned checker.looping

variable {old new start checker : Checker}

/-- A checker loses nothing by staying as it is. -/
theorem Grows.refl (checker : Checker) : checker.Grows checker :=
  ⟨id, .refl _⟩

/-- Growth goes on. -/
theorem Grows.trans {first second third : Checker} (early : first.Grows second)
    (late : second.Grows third) : first.Grows third :=
  ⟨fun silent => early.quiet (late.quiet silent), early.keeps.trans late.keeps⟩

/-- A checker extends itself. -/
theorem Extends.refl (checker : Checker) : checker.Extends checker :=
  ⟨.refl _, rfl, rfl, rfl⟩

/-- Extension goes on. -/
theorem Extends.trans {first second third : Checker} (early : first.Extends second)
    (late : second.Extends third) : first.Extends third :=
  ⟨early.toGrows.trans late.toGrows, late.active.trans early.active,
    late.loops.trans early.loops, late.returned.trans early.returned⟩

/-- The innermost scope in force is the same. -/
theorem Extends.current (extended : old.Extends new) : new.current = old.current := by
  unfold Checker.current SymbolTable.current?
  rw [extended.active]

/-- A checker is beside itself. -/
theorem Beside.refl (checker : Checker) : checker.Beside checker :=
  ⟨checker.position, rfl⟩

/-- Moving on twice is moving on. -/
theorem Beside.trans {first second third : Checker} (early : first.Beside second)
    (late : second.Beside third) : first.Beside third := by
  obtain ⟨_, rfl⟩ := early
  obtain ⟨position, rfl⟩ := late
  exact ⟨position, rfl⟩

/-- Where a unit starts, the checker is sound. -/
theorem sound_start : Checker.Sound {} := by
  refine ⟨?_, ?_, Nat.zero_lt_one⟩
  · intro _ id declaration known
    rw [SymbolTable.declared_eq_getElem, SymbolTable.symbolsOf_start] at known
    cases known
  · intro scope member
    simpa [SymbolTable.openScope] using member

/-- Moving on extends a checker. -/
theorem Beside.extends (beside : old.Beside new) : old.Extends new := by
  obtain ⟨position, rfl⟩ := beside
  exact ⟨⟨id, .refl _⟩, rfl, rfl, rfl⟩

/-- Moving on keeps a checker sound. -/
theorem Beside.sound (beside : old.Beside new) (sound : old.Sound) : new.Sound := by
  obtain ⟨position, rfl⟩ := beside
  exact ⟨sound.proper, sound.opened, sound.rooted⟩

/-- An expression that was granted stays granted. -/
theorem Grants.later {expression : Expression} (granted : old.Grants expression)
    (grows : old.Grows new) : new.Grants expression := by
  intro silent
  exact (granted (grows.quiet silent)).weaken grows.keeps

/-- A statement that was admitted stays admitted. -/
theorem Admits.later {statement : Statement} (admitted : old.Admits statement)
    (extended : old.Extends new) : new.Admits statement := by
  -- The later checker is in the same function and in as many loops.
  intro silent
  have typed := (admitted (extended.quiet silent)).weaken extended.keeps
  unfold looping at typed ⊢
  rw [extended.returned, extended.loops]
  exact typed

/-- A report extends a checker. -/
theorem extends_report (checker : Checker) (problem : Problem) :
    checker.Extends (checker.report problem) := by
  refine ⟨⟨?_, .refl _⟩, rfl, rfl, rfl⟩
  intro silent
  simp [report] at silent

/-- After a report nothing is promised about symbols. -/
theorem Sound.report (sound : checker.Sound) (problem : Problem) :
    (checker.report problem).Sound := by
  refine ⟨?_, sound.opened, sound.rooted⟩
  intro silent
  simp [Checker.report] at silent

/-- A recorded verdict extends a checker. -/
theorem extends_record {α : Type} (verdict : Verdict α) (checker : Checker) :
    checker.Extends (checker.record verdict).2 := by
  unfold record
  cases verdict.problem? with
  | none => exact .refl _
  | some problem => exact extends_report checker problem

/-- A recorded verdict keeps a checker sound. -/
theorem Sound.record {α : Type} (sound : checker.Sound) (verdict : Verdict α) :
    (checker.record verdict).2.Sound := by
  unfold Checker.record
  cases verdict.problem? with
  | none => exact sound
  | some problem => exact sound.report problem

/-- A verdict that was recorded in silence found no problem. -/
theorem problem_of_record {α : Type} {verdict : Verdict α}
    (silent : (checker.record verdict).2.reports = []) : verdict.problem? = none := by
  cases found : verdict.problem? with
  | none => rfl
  | some problem => simp [record, found, report] at silent

/-- Entering a symbol extends a checker. -/
theorem extends_enter (checker : Checker) (scope : ScopeId) (name : String) (type : Ty) :
    checker.Extends (checker.enter scope name type).2 :=
  ⟨⟨id, SymbolTable.keeps_insert _ _ _⟩, rfl, rfl, rfl⟩

/-- A symbol may be entered with the error type only after a report. -/
theorem Sound.enter (sound : checker.Sound) (scope : ScopeId) (name : String) {type : Ty}
    (proper : checker.reports = [] → type ≠ .error) : (checker.enter scope name type).2.Sound := by
  -- What is declared is declared before, or is the new symbol.
  refine ⟨?_, ?_, ?_⟩
  · intro silent id declaration known
    rcases SymbolTable.declared_insert known with before | fresh
    · exact sound.proper silent id declaration before
    · rw [fresh]
      exact proper silent
  · intro scope member
    have := sound.opened scope member
    simpa [Checker.enter, SymbolTable.insert, SymbolTable.modifySymbols] using this
  · have := sound.rooted
    simpa [Checker.enter, SymbolTable.insert, SymbolTable.modifySymbols] using this

/-- The innermost scope in force has been opened. -/
theorem Sound.current_lt (sound : checker.Sound) :
    checker.current < checker.symbols.scopes.length := by
  unfold current SymbolTable.current?
  cases held : checker.symbols.active with
  | nil => exact sound.rooted
  | cons scope rest => exact sound.opened scope (by simp [held])

/-- Opening a scope keeps a checker sound. -/
theorem Sound.openScope (sound : checker.Sound) : checker.openScope.2.Sound := by
  -- The new scope is empty, and its number is the next one.
  refine ⟨?_, ?_, ?_⟩
  · intro silent id declaration known
    refine sound.proper silent id declaration ?_
    rw [SymbolTable.declared_eq_getElem] at known ⊢
    rwa [← SymbolTable.symbolsOf_openScope]
  · intro scope member
    have within := sound.opened scope
    simp only [Checker.openScope, SymbolTable.openScope, List.mem_cons, List.length_append,
      List.length_singleton] at member ⊢
    rcases member with rfl | member
    · exact Nat.lt_succ_self _
    · exact Nat.lt_succ_of_lt (within member)
  · have := sound.rooted
    simp only [Checker.openScope, SymbolTable.openScope, List.length_append,
      List.length_singleton]
    exact Nat.lt_succ_of_lt this

/-- Closing a scope keeps a checker sound. -/
theorem Sound.closeScope (sound : checker.Sound) : checker.closeScope.2.Sound := by
  refine ⟨sound.proper, ?_, sound.rooted⟩
  intro scope member
  exact sound.opened scope (List.mem_of_mem_tail member)

/-- The loops that are open do not matter for soundness. -/
theorem Sound.enterLoop (sound : checker.Sound) : checker.enterLoop.Sound :=
  ⟨sound.proper, sound.opened, sound.rooted⟩

/-- The loops that are open do not matter for soundness. -/
theorem Sound.leaveLoop (sound : checker.Sound) : checker.leaveLoop.Sound :=
  ⟨sound.proper, sound.opened, sound.rooted⟩

/-- A table that differs only in the places of symbols serves as well. -/
theorem Sound.placed (sound : checker.Sound) {symbols : SymbolTable}
    (alike : checker.symbols.Alike symbols) : Sound { checker with symbols } := by
  refine ⟨?_, ?_, ?_⟩
  · intro silent id declaration known
    exact sound.proper silent id declaration ((alike.declared id).symm.trans known)
  · intro scope member
    have within := sound.opened scope (alike.active ▸ member)
    exact Nat.lt_of_lt_of_eq within alike.opened.symm
  · exact Nat.lt_of_lt_of_eq sound.rooted alike.opened.symm

/-- Dropping parameters that no body follows keeps a checker sound. -/
theorem Sound.closeParameters (sound : checker.Sound) : checker.closeParameters.Sound := by
  -- Discarding the scope of a prototype declares nothing.
  have closed := sound.closeScope
  unfold Checker.closeParameters
  dsimp only
  split
  · exact closed
  · refine ⟨?_, ?_, ?_⟩
    · intro silent id declaration known
      exact closed.proper silent id declaration (SymbolTable.declared_discard known)
    · intro scope member
      have within := closed.opened scope member
      simpa [SymbolTable.discard, SymbolTable.modifySymbols] using within
    · have rooted := closed.rooted
      simpa [SymbolTable.discard, SymbolTable.modifySymbols] using rooted

/-- Declaring a variable extends a checker. -/
theorem extends_declareVariable (checker : Checker) (name : String) (type : Ty) :
    checker.Extends (checker.declareVariable name type).2 := by
  -- A variable is entered, reported, or known already.
  unfold declareVariable
  dsimp only
  split
  · exact extends_enter _ _ _ _
  · split
    · exact extends_report _ _
    · split
      · exact extends_report _ _
      · exact .refl _

/-- Declaring a variable of a proper type keeps a checker sound. -/
theorem Sound.declareVariable (sound : checker.Sound) (name : String) {type : Ty}
    (proper : type ≠ .error) : (checker.declareVariable name type).2.Sound := by
  unfold Checker.declareVariable
  dsimp only
  split
  · exact sound.enter _ _ fun _ => proper
  · split
    · exact sound.report _
    · split
      · exact sound.report _
      · exact sound

/-- A local variable that is declared in silence comes last in its scope. -/
theorem types_declareVariable (sound : checker.Sound) {name : String} {type : Ty}
    (inner : checker.current ≠ unitScope)
    (silent : (checker.declareVariable name type).2.reports = []) :
    ((checker.declareVariable name type).2.symbols.symbolsOf checker.current).map Symbol.type =
      (checker.symbols.symbolsOf checker.current).map Symbol.type ++ [type] := by
  -- In an inner scope a name that is there already is reported.
  cases found : checker.symbols.find? checker.current name with
  | none =>
    simp only [declareVariable, found, enter]
    rw [SymbolTable.symbolsOf_insert _ sound.current_lt]
    simp
  | some existing => simp [declareVariable, found, inner, report] at silent

/-- Declaring a function extends a checker. -/
theorem extends_declareFunction (checker : Checker) (name : String) (type : Ty) :
    checker.Extends (checker.declareFunction name type).2 := by
  unfold declareFunction
  split
  · exact extends_enter _ _ _ _
  · split
    · exact extends_report _ _
    · exact .refl _

/-- Declaring a function of a proper type keeps a checker sound. -/
theorem Sound.declareFunction (sound : checker.Sound) (name : String) {type : Ty}
    (proper : type ≠ .error) : (checker.declareFunction name type).2.Sound := by
  unfold Checker.declareFunction
  split
  · exact sound.enter _ _ fun _ => proper
  · split
    · exact sound.report _
    · exact sound

/-- A function that is declared in silence has the declared type. -/
theorem typeOf_declareFunction (sound : checker.Sound) {name : String} {type : Ty}
    (silent : (checker.declareFunction name type).2.reports = []) :
    (checker.declareFunction name type).2.symbols.typeOf (checker.declareFunction name type).1 =
      type := by
  unfold declareFunction at silent ⊢
  cases found : checker.symbols.find? unitScope name with
  | none =>
    -- The new symbol is the one that was entered.
    simp only
    rw [SymbolTable.typeOf_eq_declared]
    have entered := SymbolTable.declared_insert_self { name, type } sound.rooted
    simp only [enter, entered]
    rfl
  | some existing =>
    simp only [found] at silent ⊢
    by_cases same : checker.symbols.typeOf existing = type
    · simp [same]
    · simp [same, report] at silent

/-- Noting that a function has a body changes nothing else. -/
theorem extends_defined (checker : Checker) (names : List String) :
    checker.Extends { checker with defined := names } :=
  ⟨⟨id, .refl _⟩, rfl, rfl, rfl⟩

/-- The names of functions with bodies do not matter for soundness. -/
theorem Sound.defined (sound : checker.Sound) (names : List String) :
    Sound { checker with defined := names } :=
  ⟨sound.proper, sound.opened, sound.rooted⟩

/-- Defining a function extends a checker. -/
theorem extends_defineFunction (checker : Checker) (name : String) (type : Ty) :
    checker.Extends (checker.defineFunction name type).2 := by
  have declares (checker : Checker) :
      checker.Extends (checker.declareDefined name type).2 :=
    (extends_defined checker _).trans (extends_declareFunction _ _ _)
  unfold defineFunction
  split
  · dsimp only
    split
    · exact extends_report _ _
    · exact (extends_report _ _).trans (declares _)
  · exact declares _

/-- Defining a function of a proper type keeps a checker sound. -/
theorem Sound.defineFunction (sound : checker.Sound) (name : String) {type : Ty}
    (proper : type ≠ .error) : (checker.defineFunction name type).2.Sound := by
  have declares {checker : Checker} (sound : checker.Sound) :
      (checker.declareDefined name type).2.Sound :=
    (sound.defined _).declareFunction name proper
  unfold Checker.defineFunction
  split
  · dsimp only
    split
    · exact sound.report _
    · exact declares (sound.report _)
  · exact declares sound

/-- A function that is defined in silence has the given type. -/
theorem typeOf_defineFunction (sound : checker.Sound) {name : String} {type : Ty}
    (silent : (checker.defineFunction name type).2.reports = []) :
    (checker.defineFunction name type).2.symbols.typeOf (checker.defineFunction name type).1 =
      type := by
  have fresh : ¬ checker.defined.contains name = true := by
    intro again
    -- A second body is reported, and the report stays.
    have reported : (checker.report (.redefinition name)).Extends
        (checker.defineFunction name type).2 := by
      simp only [defineFunction, if_pos again]
      split
      · exact .refl _
      · exact (extends_defined _ _).trans (extends_declareFunction _ _ _)
    have := reported.quiet silent
    simp [report] at this
  simp only [defineFunction, if_neg fresh, declareDefined] at silent ⊢
  exact typeOf_declareFunction (sound.defined _) silent

/-- Resolving a name extends a checker. -/
theorem extends_resolve (name : String) (checker : Checker) :
    checker.Extends (checker.resolve name).2 := by
  unfold resolve
  split
  · exact .refl _
  · exact (extends_report _ _).trans (extends_enter _ _ _ _)

/-- Resolving a name keeps a checker sound, for an undeclared one is reported. -/
theorem Sound.resolve (sound : checker.Sound) (name : String) :
    (checker.resolve name).2.Sound := by
  -- A name that is not found is entered with the error type, but then it has been reported.
  unfold Checker.resolve
  split
  · exact sound
  · refine (sound.report _).enter _ _ ?_
    intro silent
    simp [Checker.report] at silent

/-- A name that is resolved in silence has a proper type. -/
theorem typeOf_resolve (sound : checker.Sound) {name : String}
    (silent : (checker.resolve name).2.reports = []) :
    (checker.resolve name).2.symbols.typeOf (checker.resolve name).1 ≠ .error := by
  -- What is found was declared properly; what is not found is reported.
  cases found : checker.symbols.lookup? name with
  | some id =>
    simp only [resolve, found] at silent ⊢
    obtain ⟨type, known⟩ := SymbolTable.declared_of_lookup found
    rw [SymbolTable.typeOf_eq_declared, known]
    exact sound.proper silent id _ known
  | none => simp [resolve, found, enter, report] at silent

end Checker

end SmallC
