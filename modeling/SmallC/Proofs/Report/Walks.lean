import SmallC.Grammar.Units
import SmallC.Proofs.Context.Habits
import SmallC.Proofs.Report.Adding
import SmallC.Proofs.Report.Judging

/-! Walks of a reader: it takes tokens one after the other, and a name is only found to be missing right
after it has been taken. -/

namespace SmallC

/-! Checks that miss no name. -/

/-- A problem other than a missing name. -/
def Problem.Known (problem : Problem) : Prop :=
  ∀ name, problem ≠ .undeclared name

/-- Whatever a verdict finds, it is no missing name. -/
def Verdict.Known {α : Type} (verdict : Verdict α) : Prop :=
  ∀ problem ∈ verdict.problem?, problem.Known

/-- Checked operands miss no name. -/
theorem Verdict.Judged.known {α : Type} {verdict : Verdict α} (judged : verdict.Judged) :
    verdict.Known := by
  rintro problem found name rfl
  cases judged _ found

theorem known_checkBreak (loops : Nat) : (checkBreak loops).Known := by
  rintro problem found name rfl
  unfold checkBreak at found
  split at found <;> cases found

/-! Steps of the checker. -/

namespace Checker

/-- The checker stays at its place and misses no further name. -/
structure Knows (old new : Checker) : Prop where
  /-- The place is the same. -/
  position : new.position = old.position
  /-- Of the reports only earlier ones say that a name is missing. -/
  reports : ∀ report ∈ new.reports, report ∈ old.reports ∨ report.problem.Known

variable {old middle new : Checker}

/-- What is added is a missing name only if that is allowed. -/
theorem Adds.knows (adds : Adds Problem.Known old new) : old.Knows new := by
  obtain ⟨position, problems, same, known⟩ := adds
  refine ⟨position, fun report member => ?_⟩
  rw [same] at member
  rcases List.mem_append.mp member with earlier | here
  · exact .inl earlier
  · obtain ⟨problem, listed, rfl⟩ := List.mem_map.mp here
    exact .inr (known problem listed)

end Checker

/-! Walks. -/

namespace Checker

/-- What a checker does while a unit is read, other than looking a name up. -/
inductive Acts (checker : Checker) : Checker → Prop where
  /-- A node is kept, and what is wrong with it is reported. -/
  | record {α : Type} {verdict : Verdict α} (known : verdict.Known) :
    Acts checker (record verdict checker).2
  /-- A scope is opened. -/
  | openScope : Acts checker checker.openScope.2
  /-- A scope is closed. -/
  | closeScope : Acts checker checker.closeScope.2
  /-- The parameters of a prototype are dropped. -/
  | closeParameters : Acts checker checker.closeParameters
  /-- A variable is declared. -/
  | declareVariable (name : String) (type : Ty) : Acts checker (declareVariable name type checker).2
  /-- A function is declared. -/
  | declareFunction (name : String) (type : Ty) : Acts checker (declareFunction name type checker).2
  /-- A function gets its body. -/
  | defineFunction (name : String) (type : Ty) : Acts checker (defineFunction name type checker).2
  /-- The body of a function begins. -/
  | beginFunction (returned : Ty) : Acts checker (checker.beginFunction returned)
  /-- The body of a loop begins. -/
  | enterLoop : Acts checker checker.enterLoop
  /-- The body of a loop ends. -/
  | leaveLoop : Acts checker checker.leaveLoop
  /-- A function is handed on, which may give places in a frame to its variables. -/
  | handOn {σ : Type} (consume : Consumer σ) (function : Function) (output : σ) :
    Acts checker { checker with symbols := (consume function checker.symbols output).1 }

/-- Whatever is reported, it is reported at the place in hand, and it is no missing name. -/
theorem Acts.adds {checker new : Checker} (acts : checker.Acts new) :
    Adds Problem.Known checker new := by
  cases acts with
  | record known => exact adds_record known checker
  | closeParameters => exact adds_closeParameters checker
  | declareVariable name type => exact adds_declareVariable nofun nofun type checker
  | declareFunction name type => exact adds_declareFunction nofun type checker
  | defineFunction name type => exact adds_defineFunction nofun nofun type checker
  | openScope | closeScope | beginFunction | enterLoop | leaveLoop | handOn =>
    exact adds_of_eq rfl rfl

end Checker

namespace Reader

/-- The reader that has taken the token in hand as a name and looked it up. -/
def resolved (reader : Reader) : Reader :=
  { reader.step with checker := (Checker.resolve reader.current.text reader.step.checker).2 }

/-- A reader goes on: it takes tokens and the checker acts where it is, but a name is looked up right
after it has been taken. -/
inductive Walks : Reader → Reader → Prop where
  /-- It may stay where it is. -/
  | refl (reader : Reader) : Walks reader reader
  /-- It may take a token. -/
  | take {reader next : Reader} (rest : Walks reader.step next) : Walks reader next
  /-- It may take a name, which is looked up then. -/
  | resolve {reader next : Reader} (named : reader.current.kind = .identifier)
    (rest : Walks reader.resolved next) : Walks reader next
  /-- The checker may act. -/
  | act {reader next : Reader} {checker : Checker} (acts : reader.checker.Acts checker)
    (rest : Walks { reader with checker } next) : Walks reader next

variable {reader next last : Reader}

theorem Walks.trans (first : Walks reader next) (second : Walks next last) : Walks reader last := by
  -- The first walk is gone along, and the second one starts where it ends.
  induction first with
  | refl => exact second
  | take _ ih => exact .take (ih second)
  | resolve named _ ih => exact .resolve named (ih second)
  | act acts _ ih => exact .act acts (ih second)

/-- What has been reported stays in front of what is reported later. -/
theorem Walks.reports (walks : reader.Walks next) :
    reader.checker.reports <+: next.checker.reports := by
  -- Taking a token reports nothing, and whatever acts adds behind what is there.
  induction walks with
  | refl => exact List.prefix_refl _
  | take _ ih => exact ih
  | @resolve reader next named _ ih =>
    have looks := @Checker.adds_resolve (fun _ => True) reader.current.text trivial
      reader.step.checker
    exact looks.extends.trans ih
  | act acts _ ih => exact acts.adds.extends.trans ih

end Reader

namespace Reading

variable {α β : Type}

/-- Where a part of reading ends, whether it succeeds or fails. -/
def stop : EStateM.Result Failure Reader α → Reader
  | .ok _ reader | .error _ reader => reader

/-- A name is taken if it is in hand. -/
theorem name_eq (reader : Reader) : name reader =
    if reader.current.kind = .identifier then .ok reader.current.text reader.step
    else .error (.unexpectedToken reader.current.position.line reader.current.shown) reader := by
  have looks : expect .identifier reader =
      (if reader.current.kind = .identifier then advance else unexpected) reader := rfl
  unfold name
  show EStateM.bind (expect .identifier) (fun token => Pure.pure token.text) reader = _
  unfold EStateM.bind
  -- The kind in hand decides whether the token is taken.
  by_cases named : reader.current.kind = .identifier
  · rw [looks, if_pos named, if_pos named]
    rfl
  · rw [looks, if_neg named, if_neg named]
    rfl

/-- A part of reading that is a walk of its reader. -/
def Walking (action : Reading α) : Prop :=
  ∀ reader : Reader, reader.Walks (stop (action reader))

namespace Walking

theorem pure (value : α) : Walking (Pure.pure value) :=
  fun reader => .refl reader

theorem bind {action : Reading α} {next : α → Reading β} (first : Walking action)
    (rest : ∀ value, Walking (next value)) : Walking (action >>= next) := by
  intro reader
  have begun := first reader
  change reader.Walks (stop (EStateM.bind action next reader))
  unfold EStateM.bind
  -- A failure ends the walk where the first part has led, and otherwise the second part goes on.
  cases done : action reader with
  | error failure reached =>
    rw [done] at begun
    exact begun
  | ok value reached =>
    rw [done] at begun
    exact begun.trans (rest value reached)

theorem get : Walking (MonadState.get : Reading Reader) :=
  fun reader => .refl reader

theorem throw (failure : Failure) : Walking (MonadExcept.throw failure : Reading α) :=
  fun reader => .refl reader

theorem act {action : Checker → α × Checker} (acts : ∀ checker : Checker, checker.Acts (action checker).2) :
    Walking (Reading.act action) :=
  fun reader => .act (acts reader.checker) (.refl _)

theorem adjust {change : Checker → Checker} (acts : ∀ checker : Checker, checker.Acts (change checker)) :
    Walking (Reading.adjust change) :=
  act acts

theorem check {verdict : Verdict α} (known : verdict.Known) : Walking (Reading.check verdict) :=
  act fun _ => .record known

theorem advance : Walking Reading.advance :=
  fun _ => .take (.refl _)

/-- The body of a loop is left again, whether it has been read or not. -/
theorem insideLoop {body : Reading α} (walking : Walking body) :
    Walking (Reading.insideLoop body) := by
  intro reader
  have entered := walking { reader with checker := reader.checker.enterLoop }
  have left (last : Reader) : last.Walks { last with checker := last.checker.leaveLoop } :=
    .act .leaveLoop (.refl _)
  refine .act .enterLoop (entered.trans ?_)
  unfold Reading.insideLoop
  cases body { reader with checker := reader.checker.enterLoop } <;> exact left _

/-- A name is taken and looked up at once. -/
theorem resolve {further : SymbolId → Reading α} (walking : ∀ symbol, Walking (further symbol)) :
    Walking (do let symbol ← Reading.act (Checker.resolve (← name)); further symbol) := by
  intro reader
  show reader.Walks (stop (EStateM.bind name (fun found =>
    EStateM.bind (Reading.act (Checker.resolve found)) further) reader))
  unfold EStateM.bind
  rw [name_eq]
  -- Taking the name and looking it up is one step of the walk.
  by_cases named : reader.current.kind = .identifier
  · rw [if_pos named]
    exact .resolve named (walking _ _)
  · rw [if_neg named]
    exact .refl reader

end Walking

/-- To walk is a habit. -/
theorem walking : Habit @Walking :=
  ⟨.pure, .bind, .get, .throw, .advance, fun name type => .act fun _ => .declareVariable name type⟩

end Reading

end SmallC
