import SmallC.Proofs.Execution.Source

/-! Courses: for any list of outcomes, the source runs until they are used up or it ends. -/

namespace SmallC

/-- How the conditions still come out, and the instructions visited so far. -/
structure Course where
  /-- Whether the values compared next are different from zero. -/
  outcomes : List Bool
  /-- The instructions in the order in which they were visited. -/
  visited : List Instruction := []

/-- The machine whose conditions come out as listed and which writes down what it visits. -/
def oracle : Machine Course where
  act instruction course := some { course with visited := course.visited ++ [instruction] }
  nonzero course :=
    match course.outcomes with
    | [] => none
    | outcome :: rest => some (outcome, { course with outcomes := rest })

namespace Behaviour

/-- From every course the piece ends somehow, without more outcomes than before. -/
def Goes (behaviour : Behaviour Course) : Prop :=
  ∀ before, ∃ how after, behaviour before how after ∧
    after.outcomes.length ≤ before.outcomes.length

/-- Doing nothing ends. -/
theorem goes_stop (ending : Ending) : (stop ending : Behaviour Course).Goes := by
  intro before
  exact ⟨ending, before, ⟨rfl, rfl⟩, Nat.le_refl _⟩

/-- Pieces that follow each other end. -/
theorem Goes.andThen {first second : Behaviour Course} (early : first.Goes) (late : second.Goes) :
    (first.andThen second).Goes := by
  -- The second piece runs only if the first one goes onward.
  intro before
  obtain ⟨how, between, begun, fewer⟩ := early before
  by_cases onward : how = .onward
  · subst onward
    obtain ⟨how, after, ended, least⟩ := late between
    exact ⟨how, after, .inl ⟨between, begun, ended⟩, Nat.le_trans least fewer⟩
  · exact ⟨how, between, .inr ⟨onward, begun⟩, fewer⟩

/-- Straight code ends. -/
theorem goes_visit (code : Code) : (oracle.visit code).Goes := by
  -- The oracle lets every instruction act.
  induction code with
  | nil => exact goes_stop .onward
  | cons item rest ih =>
    intro before
    cases item with
    | code instruction => exact ih _
    | _ => exact ih before

/-- A choice ends, for want of an outcome if need be. -/
theorem Goes.choose {yes no : Behaviour Course} (taken : yes.Goes) (other : no.Goes) :
    (oracle.choose yes no).Goes := by
  -- Deciding uses up one outcome, or is stuck without one.
  intro before
  obtain ⟨outcomes, visited⟩ := before
  match outcomes with
  | [] => exact ⟨.stuck, ⟨[], visited⟩, ⟨rfl, rfl⟩, Nat.le_refl _⟩
  | true :: rest =>
    obtain ⟨how, after, runs, fewer⟩ := taken ⟨rest, visited⟩
    exact ⟨how, after, runs, Nat.le_succ_of_le fewer⟩
  | false :: rest =>
    obtain ⟨how, after, runs, fewer⟩ := other ⟨rest, visited⟩
    exact ⟨how, after, runs, Nat.le_succ_of_le fewer⟩

/-- A loop ends, since every turn uses up an outcome. -/
theorem Goes.repeats {tested body next : Behaviour Course} (tests : tested.Goes)
    (turns : body.Goes) (steps : next.Goes) : (oracle.Repeats tested body next).Goes := by
  intro before
  -- The induction is on how many outcomes are left before a turn.
  induction count : before.outcomes.length using Nat.strongRecOn generalizing before with
  | _ bound again =>
    subst count
    obtain ⟨how, between, test, fewer⟩ := tests before
    by_cases onward : how = .onward
    · subst onward
      obtain ⟨outcomes, visited⟩ := between
      match outcomes with
      | [] => exact ⟨.stuck, _, .undecided test rfl, fewer⟩
      | false :: rest => exact ⟨.onward, ⟨rest, visited⟩, .finished test rfl, Nat.le_of_succ_le fewer⟩
      | true :: rest =>
        have used : rest.length < before.outcomes.length := fewer
        obtain ⟨how, inside, turn, less⟩ := turns ⟨rest, visited⟩
        have least : inside.outcomes.length < before.outcomes.length := Nat.lt_of_le_of_lt less used
        cases how with
        | left => exact ⟨.onward, inside, .left test rfl turn, Nat.le_of_lt least⟩
        | returned => exact ⟨.returned, inside, .out (.inl rfl) test rfl turn, Nat.le_of_lt least⟩
        | stuck => exact ⟨.stuck, inside, .out (.inr rfl) test rfl turn, Nat.le_of_lt least⟩
        | onward =>
          obtain ⟨how, ready, stepped, left⟩ := steps inside
          have remaining : ready.outcomes.length < before.outcomes.length :=
            Nat.lt_of_le_of_lt left least
          by_cases goesOn : how = .onward
          · subst goesOn
            obtain ⟨how, after, rest, last⟩ := again _ remaining ready rfl
            exact ⟨how, after, .again test rfl turn stepped rest,
              Nat.le_trans last (Nat.le_of_lt remaining)⟩
          · exact ⟨how, ready, .unstepped goesOn test rfl turn stepped, Nat.le_of_lt remaining⟩
    · exact ⟨how, between, .untested onward test, fewer⟩

end Behaviour

namespace Expression

/-- Expressions that each end do so in order. -/
theorem goesAll_of {expressions : List Expression}
    (each : ∀ expression ∈ expressions, ∀ progress, (expression.runs oracle progress).Goes)
    (progress : Progress) : (runsAll oracle expressions progress).Goes := by
  induction expressions generalizing progress with
  | nil =>
    simp only [runsAll]
    exact Behaviour.goes_stop _
  | cons first rest ih =>
    simp only [runsAll]
    exact (each first (by simp) progress).andThen
      (ih (fun expression member => each expression (by simp [member])) _)

/-- An expression ends. -/
theorem goes (expression : Expression) (progress : Progress) :
    (expression.runs oracle progress).Goes := by
  induction expression using inductionOnParts generalizing progress with
  | strict expression plain each =>
    rw [runs_strict oracle plain]
    exact (goesAll_of each progress).andThen (Behaviour.goes_visit _)
  | decision either left right type first second =>
    rw [runs_decision]
    have visited := Behaviour.goes_visit
    refine (first _).andThen ((visited _).andThen ?_)
    -- The outcome that decides skips the right operand, and the other one goes on to it.
    cases either with
    | true =>
      refine (visited _).choose ((second _).andThen ((visited _).andThen ?_))
      exact (visited _).choose (visited _)
    | false =>
      refine Behaviour.Goes.choose ((second _).andThen ((visited _).andThen ?_)) (visited _)
      exact (visited _).choose (visited _)

/-- A condition is computed and compared to an end. -/
theorem goes_tests (test : Expression) (progress : Progress) : (test.tests oracle progress).Goes :=
  (test.goes progress).andThen (Behaviour.goes_visit _)

end Expression

namespace Statement

/-- Statements that each end do so in order. -/
theorem goesAll_of {exits : Exits} {statements : List Statement}
    (each : ∀ statement ∈ statements, ∀ progress, (statement.runs oracle exits progress).Goes)
    (progress : Progress) : (runsAll oracle exits statements progress).Goes := by
  induction statements generalizing progress with
  | nil =>
    simp only [runsAll]
    exact Behaviour.goes_stop _
  | cons first rest ih =>
    simp only [runsAll]
    exact (each first (by simp) progress).andThen
      (ih (fun statement member => each statement (by simp [member])) _)

/-- A statement ends. -/
theorem goes (statement : Statement) (exits : Exits) (progress : Progress) :
    (statement.runs oracle exits progress).Goes := by
  induction statement using inductionOn generalizing exits progress with
  | evaluate value =>
    rw [runs]
    exact value.goes progress
  | assign left right =>
    rw [runs]
    exact (right.goes _).andThen ((left.target.goes _).andThen (Behaviour.goes_visit _))
  | breakLoop =>
    rw [runs]
    exact Behaviour.goes_stop _
  | returnValue value =>
    rw [runs]
    exact (value.goes _).andThen ((Behaviour.goes_visit _).andThen (Behaviour.goes_stop _))
  | block scope body each =>
    rw [runs]
    exact goesAll_of (fun statement member => each statement member exits) _
  | whileLoop test body turn =>
    rw [runs]
    exact .repeats (test.goes_tests _) (turn _ _) (Behaviour.goes_stop _)
  | forLoop init test increment body start next turn =>
    rw [runs]
    exact (start _ _).andThen (.repeats (test.goes_tests _) (turn _ _) (next _ _))
  | ifThen test body taken =>
    rw [runs]
    exact (test.goes_tests _).andThen ((taken _ _).choose (Behaviour.goes_stop _))
  | ifElse test body otherwise taken other =>
    rw [runs]
    exact (test.goes_tests _).andThen ((taken _ _).choose (other _ _))

/-- Statements end in order. -/
theorem goesAll (statements : List Statement) (exits : Exits) (progress : Progress) :
    (runsAll oracle exits statements progress).Goes :=
  goesAll_of (fun statement _ => statement.goes exits) progress

end Statement

end SmallC
