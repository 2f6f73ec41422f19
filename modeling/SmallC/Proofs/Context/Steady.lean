import SmallC.Proofs.Context.Counting
import SmallC.Proofs.Context.Habits

/-! The context of a place in a source: scopes, loops and levels of nesting that are open around it, and
the steps of reading that leave it alone. -/

namespace SmallC

/-- What is open around a place of a source. -/
structure Context where
  /-- The levels of nesting. -/
  depth : Nat
  /-- How many levels may be open. -/
  limit : Nat
  /-- The scopes, the current one first. -/
  active : List ScopeId
  /-- The bodies of loops. -/
  loops : Nat

namespace Context

/-- How many more levels may be opened. -/
def levels (context : Context) : Nat := context.limit - context.depth

/-- One level deeper. -/
def deeper (context : Context) : Context := { context with depth := context.depth + 1 }

/-- Inside of one more scope. -/
def inside (context : Context) (scope : ScopeId) : Context :=
  { context with active := scope :: context.active }

/-- Outside of the current scope. -/
def outside (context : Context) : Context := { context with active := context.active.tail }

/-- Inside of one more loop. -/
def turn (context : Context) : Context := { context with loops := context.loops + 1 }

end Context

/-- What is open around the place that a reader has reached. -/
def Meter.context (meter : Meter) : Context :=
  ⟨meter.depth, meter.reader.limit, meter.reader.checker.symbols.active, meter.reader.checker.loops⟩

namespace Reading

variable {α β : Type} {before : Context}

/-- What a step that opens no level does to its context; where it fails, the loops are those before. -/
def Shifts (before : Context) (action : Reading α) (after : α → Context) : Prop :=
  ∀ reader, Meter.context ⟨reader, before.depth⟩ = before →
    match action reader with
    | .ok value next => Meter.context ⟨next, before.depth⟩ = after value
    | .error _ next => next.checker.loops = before.loops

/-- A step that leaves every context as it is. -/
def Steady (action : Reading α) : Prop :=
  ∀ before, Shifts before action fun _ => before

theorem Shifts.bind {action : Reading α} {next : α → Reading β} {middle : α → Context}
    {after : β → Context} (first : Shifts before action middle)
    (rest : ∀ value, Shifts (middle value) (next value) after)
    (same : ∀ value, (middle value).depth = before.depth ∧ (middle value).loops = before.loops) :
    Shifts before (action >>= next) after := by
  intro reader here
  have begun := first reader here
  change match EStateM.bind action next reader with | .ok .. => _ | .error .. => _
  unfold EStateM.bind
  cases done : action reader with
  | error failure reached =>
    rw [done] at begun
    exact begun
  | ok value reached =>
    rw [done] at begun
    -- What follows starts at the same depth, inside of as many loops.
    obtain ⟨depth, loops⟩ := same value
    have ended := rest value reached (depth ▸ begun)
    rw [depth, loops] at ended
    exact ended

namespace Steady

theorem pure (value : α) : Steady (Pure.pure value) :=
  fun _ _ here => here

theorem bind {action : Reading α} {next : α → Reading β} (first : Steady action)
    (rest : ∀ value, Steady (next value)) : Steady (action >>= next) :=
  fun before => (first before).bind (fun value => rest value before) fun _ => ⟨rfl, rfl⟩

theorem get : Steady (MonadState.get : Reading Reader) :=
  fun _ _ here => here

theorem throw (failure : Failure) : Steady (MonadExcept.throw failure : Reading α) :=
  fun _ _ here => congrArg Context.loops here

theorem act {action : Checker → α × Checker}
    (steady : ∀ checker, (action checker).2.symbols.active = checker.symbols.active ∧
      (action checker).2.loops = checker.loops) : Steady (Reading.act action) := by
  intro before reader here
  obtain ⟨active, loops⟩ := steady reader.checker
  change Context.mk before.depth reader.limit _ _ = before
  rw [active, loops]
  exact here

theorem advance : Steady Reading.advance :=
  fun _ _ here => here

theorem check (verdict : Verdict α) : Steady (Reading.check verdict) := by
  refine act fun checker => ?_
  unfold Checker.record
  cases verdict.problem? <;> exact ⟨rfl, rfl⟩

end Steady

theorem steady_declareVariable (name : String) (type : Ty) :
    Steady (act (Checker.declareVariable name type)) := by
  refine .act fun checker => ?_
  unfold Checker.declareVariable
  dsimp only
  split
  · exact ⟨rfl, rfl⟩
  · split
    · exact ⟨rfl, rfl⟩
    · split <;> exact ⟨rfl, rfl⟩

/-- To be steady is a habit. -/
theorem steady : Habit @Steady :=
  ⟨.pure, .bind, .get, .throw, .advance, steady_declareVariable⟩

namespace Steady

theorem discard {action : Reading α} : Steady action → Steady (Functor.discard action) :=
  steady.discard

theorem kind : Steady Reading.kind :=
  steady.kind

theorem unexpected : Steady (Reading.unexpected : Reading α) :=
  steady.unexpected

theorem tooDeep : Steady (Reading.tooDeep : Reading α) :=
  steady.tooDeep

theorem expect (wanted : TokenKind) : Steady (Reading.expect wanted) :=
  steady.expect wanted

end Steady

theorem steady_declareFunction (name : String) (type : Ty) :
    Steady (act (Checker.declareFunction name type)) := by
  refine .act fun checker => ?_
  unfold Checker.declareFunction
  split
  · exact ⟨rfl, rfl⟩
  · split <;> exact ⟨rfl, rfl⟩

theorem steady_resolve (name : String) : Steady (act (Checker.resolve name)) := by
  refine .act fun checker => ?_
  unfold Checker.resolve
  split <;> exact ⟨rfl, rfl⟩

theorem steady_call (callee : SymbolId) (arguments : List Expression) :
    Steady (act (Checker.call callee arguments)) := by
  refine .act fun checker => ?_
  unfold Checker.call Checker.record
  dsimp only
  split <;> exact ⟨rfl, rfl⟩

theorem shifts_openScope (before : Context) :
    Shifts before (act Checker.openScope) before.inside :=
  fun reader here => congrArg (Context.inside · reader.checker.symbols.scopes.length) here

theorem shifts_closeScope (before : Context) :
    Shifts before (act Checker.closeScope) fun _ => before.outside :=
  fun _ here => congrArg Context.outside here

end Reading

end SmallC
