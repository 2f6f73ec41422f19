import SmallC.Proofs.Execution.Source

/-! Lowered code takes the order of the source wherever it stands, with its labels found there. -/

namespace SmallC

variable {σ : Type} {machine : Machine σ} {items : List Item} {exits : Exits}

namespace Machine

/-- A truth value is stored before steps that change no state. -/
theorem Follows.settle {value result : Operand} {start stop : Nat}
    (store : items[start]? = some (operate .movl [value, result]))
    (meets : ∀ state, machine.Steps items (start + 1, state) (stop, state)) :
    machine.Follows items exits start stop (machine.visit [operate .movl [value, result]]) := by
  have straight : Straight [operate .movl [value, result]] := straight_cons rfl straight_nil
  have placed : Placed items start [operate .movl [value, result]] (start + 1) :=
    ⟨store, by simp [operate], rfl⟩
  exact (Follows.visit straight placed).before meets

end Machine

namespace Expression

/-- Expressions that each take the order of the source take it together. -/
theorem followsAll_of {expressions : List Expression}
    (each : ∀ expression ∈ expressions, ∀ (progress : Progress) (start stop : Nat),
      Placed items start (expression.lowered progress).code stop →
        machine.Follows items exits start stop (expression.runs machine progress))
    (progress : Progress) {start stop : Nat}
    (placed : Placed items start (codeAll expressions progress) stop) :
    machine.Follows items exits start stop (runsAll machine expressions progress) := by
  induction expressions generalizing progress start with
  | nil =>
    obtain rfl : start = stop := placed
    simp only [runsAll]
    exact .stay
  | cons first rest ih =>
    rw [codeAll_cons, placed_append] at placed
    -- The code of the first expression ends where that of the others starts.
    obtain ⟨middle, front, back⟩ := placed
    simp only [runsAll]
    have head := each first (by simp) progress start middle front
    exact head.andThen (ih (fun expression member => each expression (by simp [member])) _ back)

/-- The code of a decision takes the way that its operands decide. -/
theorem follows_decides {either : Bool} {left right : Expression} {type : Ty} {progress : Progress}
    {start stop : Nat} {first second : Behaviour σ}
    (begins : ∀ start stop, Placed items start (left.lowered (progress.enter type)).code stop →
      machine.Follows items exits start stop first)
    (goesOn : ∀ start stop,
      Placed items start (right.lowered (left.after (progress.enter type))).code stop →
        machine.Follows items exits start stop second)
    (placed : Placed items start
      ((Expression.binary (decision either) left right type).lowered progress).code stop) :
    machine.Follows items exits start stop
      (decides machine either left right type progress first second) := by
  have code : ((Expression.binary (decision either) left right type).lowered progress).code = _ :=
    congrArg (fun result => Lowered.code result.1) (lower_decision progress either left right type)
  rw [code] at placed
  simp only [shortCircuit, List.append_assoc, List.cons_append, List.nil_append, placed_append,
    placed_operate, placed_mark, placed_nil] at placed
  obtain ⟨_, leftCode, branch, leftTest, jump, _, rightCode, last, rightTest, again, near, skip,
    decided, decidedAt, far, done, doneAt, rfl⟩ := placed
  -- One outcome stores its truth value and jumps over the other one.
  have falls : machine.Follows items exits (last + 1) _ (machine.visit [operate .movl
      [immediate (if either then 0 else 1), progress.skip.skip.slot type]]) :=
    .settle near fun state => (Machine.steps_jump skip doneAt state).trans (Machine.steps_mark done state)
  have decides : machine.Follows items exits _ _ (machine.visit [operate .movl
      [immediate (if either then 1 else 0), progress.skip.skip.slot type]]) :=
    .after (Machine.steps_mark decided) (.settle far fun state => Machine.steps_mark done state)
  have early := (begins _ _ leftCode).andThen (.visit (straight_compareZero _ _) leftTest)
  have late := (goesOn _ _ rightCode).andThen (.visit (straight_compareZero _ _) rightTest)
  simp only [Expression.decides, ← Behaviour.andThen_assoc]
  refine early.andThen ?_
  cases either with
  | false =>
    refine .chooseZero jump decidedAt ?_ decides
    exact late.andThen (.chooseZero again decidedAt falls decides)
  | true =>
    refine .chooseNonzero jump decidedAt decides ?_
    exact late.andThen (.chooseNonzero again decidedAt decides falls)

/-- The code of an expression takes the order of the source. -/
theorem follows (expression : Expression) (progress : Progress) (start stop : Nat)
    (placed : Placed items start (expression.lowered progress).code stop) :
    machine.Follows items exits start stop (expression.runs machine progress) := by
  induction expression using inductionOnParts generalizing progress start stop with
  | strict expression plain each =>
    have shaped := shaped_own progress plain
    rw [shaped.code, placed_append] at placed
    -- The parts come first, and the own code of the node is straight.
    obtain ⟨middle, front, back⟩ := placed
    rw [runs_strict machine plain]
    exact (followsAll_of each progress front).andThen (.visit shaped.straight back)
  | decision either left right type first second =>
    rw [runs_decision]
    exact follows_decides (first _) (second _) placed

/-- An expression that runs onward does so wherever its code stands. -/
theorem steps_of_runs {expression : Expression} {progress : Progress} {before after : σ}
    (runs : expression.runs machine progress before .onward after) {start stop : Nat}
    (placed : Placed items start (expression.lowered progress).code stop) :
    machine.Steps items (start, before) (stop, after) := by
  have follows : machine.Follows items { function := progress.label } start stop
      (expression.runs machine progress) := expression.follows progress start stop placed
  obtain ⟨_, steps, rfl⟩ := follows _ _ _ runs
  exact steps

/-- The code of a condition is followed by the comparison with zero. -/
theorem follows_tests (test : Expression) (progress : Progress) {start stop : Nat}
    (placed : Placed items start (test.tested progress) stop) :
    machine.Follows items exits start stop (test.tests machine progress) := by
  obtain ⟨middle, front, back⟩ := placed_append.mp placed
  exact (test.follows progress _ _ front).andThen (.visit (straight_compareZero _ _) back)

end Expression

/-- The labels that control may go to from inside a statement are found. -/
structure Exits.Found (items : List Item) (exits : Exits) : Prop where
  /-- The function has an end. -/
  function : ∃ place, placeOf items exits.function = some place
  /-- So has the innermost loop. -/
  loop : ∀ label, exits.loop? = some label → ∃ place, placeOf items label = some place

/-- The labels are still found in a loop whose end is. -/
theorem Exits.Found.within (found : exits.Found items) {exit : Label} {place : Nat}
    (there : placeOf items exit = some place) : (exits.within exit).Found items := by
  refine ⟨found.function, ?_⟩
  rintro label same
  cases same
  exact ⟨place, there⟩

namespace Machine

/-- A jump to the end of the innermost loop leaves it. -/
theorem Follows.leave {label : Label} {start stop : Nat} (inside : exits.loop? = some label)
    (found : exits.Found items) (here : items[start]? = some (operate .jmp [.target label])) :
    machine.Follows items exits start stop (.stop .left) := by
  rintro before how after ⟨rfl, rfl⟩
  obtain ⟨place, there⟩ := found.loop label inside
  exact ⟨place, steps_jump here there after, label, inside, there⟩

/-- A jump to the end of the function returns. -/
theorem Follows.finish {start stop : Nat} (found : exits.Found items)
    (here : items[start]? = some (operate .jmp [.target exits.function])) :
    machine.Follows items exits start stop (.stop .returned) := by
  rintro before how after ⟨rfl, rfl⟩
  obtain ⟨place, there⟩ := found.function
  exact ⟨place, steps_jump here there after, there⟩

end Machine

namespace Statement

/-- Statements that each take the order of the source take it together. -/
theorem followsAll_of {statements : List Statement}
    (each : ∀ statement ∈ statements, ∀ (progress : Progress) (start stop : Nat),
      Placed items start (statement.lowered exits progress) stop →
        machine.Follows items exits start stop (statement.runs machine exits progress))
    (progress : Progress) {start stop : Nat}
    (placed : Placed items start (loweredAll exits statements progress) stop) :
    machine.Follows items exits start stop (runsAll machine exits statements progress) := by
  induction statements generalizing progress start with
  | nil =>
    obtain rfl : start = stop := placed
    simp only [runsAll]
    exact .stay
  | cons first rest ih =>
    unfold loweredAll at placed
    rw [lowerAll_cons] at placed
    -- The code of the first statement ends where that of the others starts.
    obtain ⟨middle, front, back⟩ := placed_append.mp placed
    simp only [runsAll]
    have head := each first (by simp) progress start middle front
    exact head.andThen (ih (fun statement member => each statement (by simp [member])) _ back)

/-- The code of a statement takes the order of the source when its breaks are inside loops. -/
theorem follows {looping : Bool} {statement : Statement} (contained : statement.Contained looping)
    (inside : exits.loop?.isSome = looping) (found : exits.Found items) (progress : Progress)
    (start stop : Nat) (placed : Placed items start (statement.lowered exits progress) stop) :
    machine.Follows items exits start stop (statement.runs machine exits progress) := by
  -- The induction is on where the breaks are, since a loop gives its body another end.
  induction contained generalizing exits progress start stop with
  | evaluate value =>
    unfold lowered at placed
    rw [lower_evaluate] at placed
    rw [runs]
    exact value.follows progress _ _ placed
  | assign left right =>
    unfold lowered at placed
    simp only [lower_assign, placed_append] at placed
    obtain ⟨_, ⟨_, valued, placing⟩, stored⟩ := placed
    rw [(Expression.located_target _ left).1] at placing
    rw [runs]
    exact (right.follows _ _ _ valued).andThen ((left.target.follows _ _ _ placing).andThen
      (.visit (straight_storeValue _ _ _ _) stored))
  | breakLoop =>
    obtain ⟨label, here⟩ := Option.isSome_iff_exists.mp inside
    unfold lowered at placed
    simp only [lower_breakLoop, here, Option.map_some, Option.toList_some, placed_operate] at placed
    rw [runs]
    exact .leave here found placed.1
  | returnValue value =>
    unfold lowered at placed
    simp only [lower_returnValue, placed_append] at placed
    obtain ⟨_, valued, loaded⟩ := placed
    rw [← List.singleton_append, placed_append] at loaded
    obtain ⟨_, load, jump, -⟩ := loaded
    rw [runs]
    exact (value.follows _ _ _ valued).andThen ((Machine.Follows.visit
      (straight_loadReturned _ _) load).andThen (.finish found jump))
  | block scope each ih =>
    unfold lowered at placed
    rw [lower_block] at placed
    rw [runs]
    exact followsAll_of (fun statement member => ih statement member inside found) _ placed
  | whileLoop test turn ih =>
    unfold lowered at placed
    simp only [lower_whileLoop, List.cons_append, List.append_assoc, placed_append, placed_mark,
      placed_operate, placed_nil, List.nil_append] at placed
    obtain ⟨top, topAt, _, tested, branch, _, body, jump, exit, exitAt, rfl⟩ := placed
    have turns := ih rfl (found.within exitAt) _ _ _ body
    rw [runs]
    exact .repeats top topAt (test.follows_tests _ tested) branch turns .stay jump exit exitAt
  | forLoop test _ _ _ starts next turn =>
    unfold lowered at placed
    simp only [lower_forLoop, List.cons_append, List.append_assoc, placed_append, placed_mark,
      placed_operate, placed_nil, List.nil_append] at placed
    obtain ⟨_, init, top, topAt, _, tested, branch, _, body, _, increment, jump, exit, exitAt,
      rfl⟩ := placed
    have begun := starts inside found _ _ _ init
    have turns := turn rfl (found.within exitAt) _ _ _ body
    have steps := next inside found _ _ _ increment
    rw [runs]
    exact begun.andThen
      (.repeats top topAt (test.follows_tests _ tested) branch turns steps jump exit exitAt)
  | ifThen test _ ih =>
    unfold lowered at placed
    simp only [lower_ifThen, List.cons_append, List.append_assoc, placed_append, placed_mark,
      placed_operate, placed_nil, List.nil_append] at placed
    obtain ⟨_, tested, branch, _, body, skip, skipAt, rfl⟩ := placed
    have meets (state : σ) : machine.Steps items _ _ := Machine.steps_mark skip state
    have taken := (ih inside found _ _ _ body).before meets
    rw [runs]
    exact (test.follows_tests _ tested).andThen
      (.chooseZero branch skipAt taken (.after meets .stay))
  | ifElse test _ _ first second =>
    unfold lowered at placed
    simp only [lower_ifElse, List.cons_append, List.append_assoc, placed_append, placed_mark,
      placed_operate, placed_nil, List.nil_append] at placed
    obtain ⟨_, tested, branch, _, body, jump, skip, skipAt, _, otherwise, done, doneAt, rfl⟩ :=
      placed
    have meets (state : σ) : machine.Steps items _ _ := Machine.steps_mark done state
    -- The first branch jumps over the second one, and both meet behind the last label.
    have taken := (first inside found _ _ _ body).before fun state =>
      (Machine.steps_jump jump doneAt state).trans (meets state)
    have other := ((second inside found _ _ _ otherwise).before meets).after
      (Machine.steps_mark skip)
    rw [runs]
    exact (test.follows_tests _ tested).andThen (.chooseZero branch skipAt taken other)

end Statement

end SmallC
