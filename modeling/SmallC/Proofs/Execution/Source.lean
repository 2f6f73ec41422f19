import SmallC.Proofs.Execution.Machine
import SmallC.Proofs.Typing.Rules

/-! The order of the source: which pieces of code run, one after the other, turn by turn. -/

namespace SmallC

namespace Behaviour

variable {σ : Type}

@[simp] theorem stay_andThen (behaviour : Behaviour σ) :
    (stop .onward).andThen behaviour = behaviour := by
  -- Doing nothing goes onward from the same state, and ends in no other way.
  funext before how after
  refine propext ⟨?_, ?_⟩
  · rintro (⟨between, ⟨-, rfl⟩, runs⟩ | ⟨elsewhere, rfl, -⟩)
    · exact runs
    · exact absurd rfl elsewhere
  · intro runs
    exact .inl ⟨before, ⟨rfl, rfl⟩, runs⟩

@[simp] theorem andThen_stay (behaviour : Behaviour σ) :
    behaviour.andThen (stop .onward) = behaviour := by
  funext before how after
  refine propext ⟨?_, ?_⟩
  · rintro (⟨between, runs, rfl, rfl⟩ | ⟨-, runs⟩)
    · exact runs
    · exact runs
  · intro runs
    -- Going onward is what the second piece adds nothing to, and other endings skip it.
    by_cases onward : how = .onward
    · subst onward
      exact .inl ⟨after, runs, rfl, rfl⟩
    · exact .inr ⟨onward, runs⟩

theorem andThen_assoc (first second third : Behaviour σ) :
    (first.andThen second).andThen third = first.andThen (second.andThen third) := by
  funext before how after
  -- A run of either side is one of three: through all pieces, or ending in the first or in the
  -- second.
  refine propext ⟨?_, ?_⟩
  · rintro (⟨late, ⟨early, begun, middle⟩ | ⟨elsewhere, -⟩, ended⟩ |
      ⟨elsewhere, ⟨early, begun, middle⟩ | ⟨-, begun⟩⟩)
    · exact .inl ⟨early, begun, .inl ⟨late, middle, ended⟩⟩
    · exact absurd rfl elsewhere
    · exact .inl ⟨early, begun, .inr ⟨elsewhere, middle⟩⟩
    · exact .inr ⟨elsewhere, begun⟩
  · rintro (⟨early, begun, ⟨late, middle, ended⟩ | ⟨elsewhere, middle⟩⟩ | ⟨elsewhere, begun⟩)
    · exact .inl ⟨late, .inl ⟨early, begun, middle⟩, ended⟩
    · exact .inr ⟨elsewhere, .inl ⟨early, begun, middle⟩⟩
    · exact .inr ⟨elsewhere, .inr ⟨elsewhere, begun⟩⟩

end Behaviour

variable {σ : Type} (machine : Machine σ)

namespace Expression

/-- The code that compares the value of an expression with zero. -/
def comparison (expression : Expression) (progress : Progress) : Code :=
  compareZero (expression.lowered progress).value expression.type

/-- A decision runs its right operand only when the left one does not decide. -/
def decides (either : Bool) (left right : Expression) (type : Ty) (progress : Progress)
    (first second : Behaviour σ) : Behaviour σ :=
  let entry := progress.enter type
  let settle (truth : Nat) :=
    machine.visit [operate .movl [immediate truth, progress.skip.skip.slot type]]
  let rest := second.andThen ((machine.visit (right.comparison (left.after entry))).andThen
    (machine.choose (settle 1) (settle 0)))
  first.andThen ((machine.visit (left.comparison entry)).andThen
    (if either then machine.choose (settle 1) rest else machine.choose rest (settle 0)))

mutual

/-- The parts of an expression run in order, and then the node itself. -/
def runs : Expression → Progress → Behaviour σ
  | .integer .., _ | .real _, _ | .string _, _ | .identifier .., _ => .stop .onward
  | .call callee arguments type, progress =>
    (runsAll arguments progress).andThen
      (machine.visit (own (.call callee arguments type) progress))
  -- Of what is behind a pointer, only the place is computed.
  | .unary .address (.unary .dereference pointer pointed) type, progress =>
    (runs pointer progress).andThen
      (machine.visit (own (.unary .address (.unary .dereference pointer pointed) type) progress))
  | .step op scale (.unary .dereference pointer pointed) type, progress =>
    (runs pointer progress).andThen
      (machine.visit (own (.step op scale (.unary .dereference pointer pointed) type) progress))
  | .unary op operand type, progress =>
    (runs operand progress).andThen (machine.visit (own (.unary op operand type) progress))
  | .step op scale operand type, progress =>
    (runs operand progress).andThen (machine.visit (own (.step op scale operand type) progress))
  | .binary .logicalAnd left right type, progress =>
    decides machine false left right type progress (runs left (progress.enter type))
      (runs right (left.after (progress.enter type)))
  | .binary .logicalOr left right type, progress =>
    decides machine true left right type progress (runs left (progress.enter type))
      (runs right (left.after (progress.enter type)))
  | .binary op left right type, progress =>
    (runs left progress).andThen ((runs right (left.after progress)).andThen
      (machine.visit (own (.binary op left right type) progress)))

/-- Expressions run in order. -/
def runsAll : List Expression → Progress → Behaviour σ
  | [], _ => .stop .onward
  | first :: rest, progress => (runs first progress).andThen (runsAll rest (first.after progress))

end

attribute [local simp] runs runsAll

/-- The value of a condition is computed and compared with zero. -/
def tests (test : Expression) (progress : Progress) : Behaviour σ :=
  (test.runs machine progress).andThen (machine.visit (test.comparison progress))

/-- A node that is no decision runs its parts and then its own code. -/
theorem runs_strict {expression : Expression} (strict : expression.isDecision = false)
    (progress : Progress) : expression.runs machine progress =
      (runsAll machine expression.parts progress).andThen
        (machine.visit (expression.own progress)) := by
  cases expression with
  | integer | real | string | identifier =>
    -- Leaves have no code of their own.
    simp only [runs, parts, runsAll, Behaviour.stay_andThen]
    rfl
  | call callee arguments type => rw [runs, parts]
  | unary op operand type =>
    cases op with
    | address =>
      cases operand with
      | unary inner => cases inner <;> simp [runs, runsAll, parts, target]
      | _ => simp [runs, runsAll, parts, target]
    | _ => simp [runs, runsAll, parts]
  | step op scale operand type =>
    cases operand with
    | unary inner => cases inner <;> simp [runs, runsAll, parts, target]
    | _ => simp [runs, runsAll, parts, target]
  | binary op left right type =>
    cases op with
    | logicalAnd | logicalOr => contradiction
    | _ => simp [runs, runsAll, parts, Behaviour.andThen_assoc]

/-- A decision runs as its operands decide. -/
theorem runs_decision (either : Bool) (left right : Expression) (type : Ty) (progress : Progress) :
    (Expression.binary (decision either) left right type).runs machine progress =
      decides machine either left right type progress (left.runs machine (progress.enter type))
        (right.runs machine (left.after (progress.enter type))) := by
  cases either <;> simp only [decision, Bool.false_eq_true, if_true, if_false, runs]

end Expression

namespace Statement

mutual

/-- The pieces of a statement run as their tests decide. -/
def runs (exits : Exits) : Statement → Progress → Behaviour σ
  | .evaluate value, progress => value.runs machine progress
  | .assign left right, progress =>
    let reached := right.after progress
    (right.runs machine progress).andThen ((left.target.runs machine reached).andThen
      (machine.visit (storeValue left.type right.type (left.located reached).place
        (right.lowered progress).value)))
  | .breakLoop, _ => .stop .left
  | .returnValue value, progress =>
    (value.runs machine progress).andThen
      ((machine.visit [loadReturned value.type (value.lowered progress).value]).andThen
        (.stop .returned))
  | .block scope body, progress => runsAll exits body (progress.bind scope)
  | .whileLoop test body, progress =>
    let entry := progress.skip.skip
    machine.Repeats (test.tests machine entry)
      (runs (exits.within progress.skip.label) body (test.after entry)) (.stop .onward)
  | .forLoop init test increment body, progress =>
    let inside := exits.within progress.skip.label
    let started := init.after exits progress.skip.skip
    -- The step after a turn is lowered behind the body, outside the loop.
    (runs exits init progress.skip.skip).andThen
      (machine.Repeats (test.tests machine started) (runs inside body (test.after started))
        (runs exits increment (body.after inside (test.after started))))
  | .ifThen test body, progress =>
    (test.tests machine progress.skip).andThen
      (machine.choose (runs exits body (test.after progress.skip)) (.stop .onward))
  | .ifElse test body otherwise, progress =>
    let taken := body.after exits (test.after progress.skip)
    (test.tests machine progress.skip).andThen
      (machine.choose (runs exits body (test.after progress.skip))
        (runs exits otherwise taken.skip))

/-- Statements run in order. -/
def runsAll (exits : Exits) : List Statement → Progress → Behaviour σ
  | [], _ => .stop .onward
  | first :: rest, progress =>
    (runs exits first progress).andThen (runsAll exits rest (first.after exits progress))

end

/-- Whether loops are left only from inside, the flag telling whether a loop is around. -/
inductive Contained : (looping : Bool) → Statement → Prop where
  | evaluate {looping : Bool} (value : Expression) : Contained looping (.evaluate value)
  | assign {looping : Bool} (left right : Expression) : Contained looping (.assign left right)
  | breakLoop : Contained true .breakLoop
  | returnValue {looping : Bool} (value : Expression) : Contained looping (.returnValue value)
  | block {looping : Bool} (scope : ScopeId) {body : List Statement}
    (each : ∀ statement ∈ body, Contained looping statement) :
    Contained looping (.block scope body)
  | whileLoop {looping : Bool} (test : Expression) {body : Statement}
    (turn : Contained true body) : Contained looping (.whileLoop test body)
  | forLoop {looping : Bool} {init increment body : Statement} (test : Expression)
    (start : Contained looping init) (next : Contained looping increment)
    (turn : Contained true body) : Contained looping (.forLoop init test increment body)
  | ifThen {looping : Bool} (test : Expression) {body : Statement}
    (taken : Contained looping body) : Contained looping (.ifThen test body)
  | ifElse {looping : Bool} (test : Expression) {body otherwise : Statement}
    (taken : Contained looping body) (other : Contained looping otherwise) :
    Contained looping (.ifElse test body otherwise)

/-- The breaks of a typed statement are inside loops. -/
theorem Typed.contained {symbols : SymbolTable} {returned : Ty} {looping : Bool}
    {statement : Statement} (typed : statement.Typed symbols returned looping) :
    statement.Contained looping := by
  -- Both judgements hand a loop down to its body and nowhere else.
  induction typed with
  | evaluate => exact .evaluate _
  | assign => exact .assign _ _
  | breakLoop => exact .breakLoop
  | returnValue => exact .returnValue _
  | block scope _ each => exact .block scope each
  | whileLoop _ _ _ turn => exact .whileLoop _ turn
  | forLoop _ _ _ _ _ start next turn => exact .forLoop _ start next turn
  | ifThen _ _ _ taken => exact .ifThen _ taken
  | ifElse _ _ _ _ taken other => exact .ifElse _ taken other

end Statement

end SmallC
