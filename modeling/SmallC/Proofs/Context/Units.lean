import SmallC.Proofs.Context.Procedures

/-! A unit gives its context back, declaration by declaration: outside of functions only the scope of the
unit is open, and no loop and no level. -/

namespace SmallC

namespace Reading

theorem shifts_signature (before : Context) (specifier : Specifier) (indirection : Nat) :
    Shifts before (signature specifier indirection) fun found => before.inside found.2 :=
  (shifts_openScope before).bind (fun scope =>
    (steady.parameterList (before.inside scope)).bind (fun _ _ here => here) fun _ => ⟨rfl, rfl⟩)
    fun _ => ⟨rfl, rfl⟩

/-- A function without a body leaves the scope of its parameters. -/
theorem shifts_declarePrototype (before : Context) (scope : ScopeId) (name : String) (type : Ty) :
    Shifts (before.inside scope) (declarePrototype name type) fun _ => before := by
  have closes : Shifts (before.inside scope) (adjust Checker.closeParameters) fun _ => before := by
    intro reader here
    have left := congrArg Context.outside here
    change Context.mk before.depth reader.limit _ _ = before
    unfold Checker.closeParameters
    dsimp only
    -- Whether the symbols are dropped makes no difference to what is open.
    split <;> exact left
  exact closes.bind (fun _ => (steady_declareFunction name type).discard before) fun _ => ⟨rfl, rfl⟩

theorem steady_globalDeclarator (specifier : Specifier) : Steady (globalDeclarator specifier) := by
  refine steady.stars.bind fun indirection => steady.name.bind fun name => .bind .kind fun found => ?_
  split
  · refine Steady.advance.discard.bind fun _ before => ?_
    refine (shifts_signature before specifier indirection).bind (fun found => ?_) fun _ => ⟨rfl, rfl⟩
    exact (shifts_declarePrototype before found.2 name found.1).bind
      (fun _ => (Steady.expect _).discard before) fun _ => ⟨rfl, rfl⟩
  · exact steady.declareObject _ _ _

theorem steady_furtherDeclarators (specifier : Specifier) : Steady (furtherDeclarators specifier) :=
  (steady.many _ (Steady.advance.discard.bind fun _ => steady_globalDeclarator specifier)).discard.bind
    fun _ => (Steady.expect _).discard

theorem steady_defineFunction (name : String) (type : Ty) :
    Steady (act (Checker.defineFunction name type)) := by
  -- Declaring enters a symbol into a scope that is there, or only reports.
  have declares (checker : Checker) :
      (checker.declareDefined name type).2.symbols.active = checker.symbols.active ∧
        (checker.declareDefined name type).2.loops = checker.loops := by
    unfold Checker.declareDefined Checker.declareFunction
    split
    · exact ⟨rfl, rfl⟩
    · split <;> exact ⟨rfl, rfl⟩
  refine .act fun checker => ?_
  unfold Checker.defineFunction
  split
  · dsimp only
    split
    · exact ⟨rfl, rfl⟩
    · exact declares (checker.report (.redefinition name))
  · exact declares checker

end Reading

namespace Counted

variable {before : Context}

/-- Outside of functions no level and no loop is open. -/
structure Outermost (context : Context) : Prop where
  /-- No level is open. -/
  depth : context.depth = 0
  /-- No loop is open. -/
  loops : context.loops = 0

/-- The body of a function leaves the scope of the parameters. -/
theorem tallies_functionBody (outermost : Outermost before) (name : String) (type : Ty)
    (scope : ScopeId) :
    Tallies True (before.inside scope) (functionBody name type scope)
      (Reading.functionBody name type scope) fun _ => before := by
  unfold functionBody Reading.functionBody
  refine .get fun reader here => ?_
  -- All levels are left for each statement of the body.
  have levels : (before.inside scope).levels = reader.limit := by
    have limit : reader.limit = before.limit := congrArg Context.limit here
    unfold Context.levels
    rw [limit, show (before.inside scope).depth = 0 from outermost.depth]
    rfl
  have begins (returned : Ty) : Reading.Shifts (before.inside scope)
      (Reading.adjust (·.beginFunction returned)) fun _ => before.inside scope := by
    intro reader here
    have loops : reader.checker.loops = 0 := (congrArg Context.loops here).trans outermost.loops
    refine Eq.trans ?_ here
    unfold Meter.context
    rw [loops]
    rfl
  extract_lets _ _ counted _ reading
  have body : Tallies True (before.inside scope) (counted ⟨⟩) (reading ⟨⟩) fun _ => before := by
    refine Tallies.next (.steady (Reading.steady_defineFunction name type)) fun symbol => ?_
    refine .skip (.expect _) (Tallies.next (.steady Reading.steady.declarations) fun _ => ?_)
    have each := restores_statement reader.limit (before.inside scope) (Nat.le_of_eq levels)
    rw [levels] at each
    refine (Tallies.many _ each).next fun body => .closeScope fun closed => ?_
    exact .skip (.expect _) (.pure _)
  cases type.specifier? with
  | none => exact body
  | some specifier =>
    have begun : Restores (before.inside scope) (plain (Reading.adjust _)) _ :=
      .plain (begins (.scalar specifier type.indirection)) fun _ => rfl
    exact begun.next fun _ => body

/-- What stands at the top of a unit gives the context of the unit back. -/
theorem restores_topLevel (outermost : Outermost before) :
    Restores before topLevel Reading.topLevel := by
  unfold topLevel Reading.topLevel
  refine Tallies.next (.steady Reading.steady.specifier) fun specifier => ?_
  refine Tallies.next (.steady Reading.steady.stars) fun indirection => ?_
  refine Tallies.next (.steady Reading.steady.name) fun name => .kind fun found => ?_
  have further : Restores before
      (do plain (Reading.furtherDeclarators specifier); return (none : Option Function))
      (do Reading.furtherDeclarators specifier; return none) :=
    Tallies.next (.steady (Reading.steady_furtherDeclarators specifier)) fun _ => .pure _
  split
  · refine .skip .advance ?_
    refine Tallies.bind (.plain (Reading.shifts_signature before specifier indirection) fun _ => rfl)
      (fun signed => ?_) fun _ => ⟨rfl, rfl⟩
    obtain ⟨type, scope⟩ := signed
    refine .skip (.expect _) (.kind fun follows => ?_)
    -- The scope of the parameters is left behind a body, or where there is none.
    split
    · exact Tallies.bind (tallies_functionBody outermost name type scope) (fun _ => .pure _)
        fun _ => ⟨rfl, rfl⟩
    · exact Tallies.bind
        (.plain (Reading.shifts_declarePrototype before scope name type) fun _ => rfl)
        (fun _ => further) fun _ => ⟨rfl, rfl⟩
  · exact Tallies.next (.steady (Reading.steady.declareObject _ _ _)) fun _ => further

section Consumers

variable {σ : Type} {consume : Consumer σ}

/-- Counting the levels changes nothing about a unit, all levels are closed at its end, and where it is
read to its end its context is given back. -/
theorem readDeclarations_eq
    (same : ∀ function symbols output, (consume function symbols output).1.active = symbols.active)
    (outermost : Outermost before) (clock : List Token) (reader : Reader) (output : σ)
    (here : Meter.context ⟨reader, 0⟩ = before) :
    readDeclarations consume clock ⟨reader, 0⟩ output =
        (SmallC.readDeclarations consume clock reader output, 0) ∧
      ((SmallC.readDeclarations consume clock reader output).failure? = none →
        Meter.context ⟨(SmallC.readDeclarations consume clock reader output).reader, 0⟩ = before) := by
  induction clock generalizing reader output with
  | nil =>
    unfold readDeclarations SmallC.readDeclarations
    split
    · exact ⟨rfl, fun _ => here⟩
    · exact ⟨rfl, nofun⟩
  | cons token clock ih =>
    unfold readDeclarations SmallC.readDeclarations
    dsimp only
    split
    · exact ⟨rfl, fun _ => here⟩
    · have done := restores_topLevel outermost reader (outermost.depth.symm ▸ here)
      rw [outermost.depth] at done
      cases read : Reading.topLevel reader with
      | error failure last =>
        rw [read] at done
        obtain ⟨depth, ran, -, given⟩ := done
        obtain rfl := given trivial
        rw [ran]
        exact ⟨rfl, nofun⟩
      | ok result last =>
        rw [read] at done
        obtain ⟨depth, ran, after, given⟩ := done
        obtain rfl := given trivial
        dsimp only at ran after
        rw [outermost.depth] at ran after
        rw [ran]
        cases result with
        | none => exact ih last output after
        | some function =>
          -- A function that is handed on may get places, which are no part of the context.
          let consumed := consume function last.checker.symbols output
          refine ih { last with checker := { last.checker with symbols := consumed.1 } } consumed.2 ?_
          refine Eq.trans ?_ after
          unfold Meter.context
          rw [same]

end Consumers

end Counted

end SmallC
