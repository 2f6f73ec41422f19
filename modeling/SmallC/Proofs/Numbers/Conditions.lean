import SmallC.Proofs.Definitions.Units
import SmallC.Proofs.Execution.Certain
import SmallC.Proofs.Numbers.Binary64
import SmallC.Proofs.Numbers.Board
import SmallC.Proofs.Words.Computation

/-! Conditions on floating-point numbers: what they ask about the numbers, what the language answers, and
what is read from the conditions of the processor. -/

namespace SmallC

/-- What a condition asks about numbers. -/
inductive Question where
  /-- Whether two numbers are in a relation. -/
  | compares (relation : Comparison)
  /-- Whether a number counts as true. -/
  | counts
  deriving DecidableEq, Repr

/-- Answers to questions about numbers that stand to each other in some way. -/
abbrev Answers := Question → Standing → Bool

namespace Question

/-- What the language answers. With no number on one side, two operands are different and in no other
relation, and what is no number is not zero either. -/
def answer : Answers
  | .compares .less, standing => standing = .less
  | .compares .greater, standing => standing = .greater
  | .compares .lessEqual, standing => standing = .less || standing = .equal
  | .compares .greaterEqual, standing => standing = .greater || standing = .equal
  | .compares .equal, standing => standing = .equal
  | .compares .notEqual, standing | .counts, standing => standing ≠ .equal

/-- What the conditions of the processor answer, read as those of a comparison of unsigned words. -/
def read : Answers
  | .compares .less, standing => standing.carry
  | .compares .greater, standing => !standing.carry && !standing.zero
  | .compares .lessEqual, standing => standing.carry || standing.zero
  | .compares .greaterEqual, standing => !standing.carry
  | .compares .equal, standing => standing.zero
  | .compares .notEqual, standing | .counts, standing => !standing.zero

/-- Whether the conditions answer as the language does: always between numbers, and without a number on
one side only when the left operand is asked to be greater. -/
def Sound : Question → Standing → Prop
  | .compares .greater, _ | .compares .greaterEqual, _ => True
  | _, standing => standing ≠ .unordered

instance (question : Question) (standing : Standing) : Decidable (question.Sound standing) := by
  unfold Sound
  split <;> infer_instance

/-- The conditions answer right exactly there. -/
theorem read_eq_answer (question : Question) (standing : Standing) :
    question.read standing = question.answer standing ↔ question.Sound standing := by
  -- There are seven questions and four ways to stand.
  cases question with
  | compares relation => cases relation <;> cases standing <;> decide
  | counts => cases standing <;> decide

/-- The operation that notes a comparison reads the conditions of the numbers. -/
theorem condition_read (relation : Comparison) {type : Ty} (real : type.isReal = true)
    {standing : Standing} {flags : Flags} (zero : flags.zero = standing.zero)
    (carry : flags.carry = standing.carry) :
    (conditionOf relation type).condition? flags =
      some ((Question.compares relation).read standing) := by
  -- Numbers are compared by the operations for unsigned words.
  cases relation <;>
    simp [conditionOf, real, Opcode.condition?, zero, carry, read]

end Question

namespace Expression

/-- What the answers make of a condition when its operands are evaluated as they come: what has been
asked on the way, and whether the condition holds in the end. Any floating-point number that can be
computed may be an operand. -/
inductive Judged (numerics : Numerics) (layout : Layout) (answers : Answers) :
    Expression → Progress → Board → List (Question × Standing) → Bool → Prop where
  /-- A number counts as it stands to zero. -/
  | counts {operand : Expression} {progress : Progress} {before between : Board}
    {number : BitVec 64} (real : operand.type.isReal = true)
    (runs : operand.runs (numerics.machine layout) progress before .onward between)
    (there : between.number? layout (operand.lowered progress).value = some number) :
    Judged numerics layout answers operand progress before
      [(.counts, numerics.order number 0)] (answers .counts (numerics.order number 0))
  /-- Two numbers are compared when both have been computed, the left one being still there. -/
  | compares {relation : Comparison} {left right : Expression} {progress : Progress}
    {before middle between : Board} {first second : BitVec 64} (real : left.type.isReal = true)
    (runs : left.runs (numerics.machine layout) progress before .onward middle)
    (here : middle.number? layout (left.lowered progress).value = some first)
    (goesOn : right.runs (numerics.machine layout) (left.after progress) middle .onward between)
    (still : between.number? layout (left.lowered progress).value = some first)
    (there : between.number? layout (right.lowered (left.after progress)).value = some second) :
    Judged numerics layout answers (.binary (.compare relation) left right .int) progress before
      [(.compares relation, numerics.order first second)]
      (answers (.compares relation) (numerics.order first second))
  /-- A negation holds when its operand does not. -/
  | not {operand : Expression} {progress : Progress} {before : Board}
    {asked : List (Question × Standing)} {holds : Bool}
    (judged : Judged numerics layout answers operand progress before asked holds) :
    Judged numerics layout answers (.unary .not operand .int) progress before asked (!holds)
  /-- The left operand decides, and the right one is not asked about. -/
  | decided {either : Bool} {left right : Expression} {progress : Progress} {before : Board}
    {asked : List (Question × Standing)}
    (first : Judged numerics layout answers left (progress.enter .int) before asked either) :
    Judged numerics layout answers (.binary (decision either) left right .int) progress before asked
      either
  /-- The left operand does not decide, and the right one does after it. -/
  | undecided {either holds : Bool} {left right : Expression} {progress : Progress}
    {before between : Board} {asked later : List (Question × Standing)}
    (first : Judged numerics layout answers left (progress.enter .int) before asked (!either))
    (tests : left.tests (numerics.machine layout) (progress.enter .int) before .onward between)
    (second : Judged numerics layout answers right (left.after (progress.enter .int)) between later
      holds) :
    Judged numerics layout answers (.binary (decision either) left right .int) progress before
      (asked ++ later) holds

section

variable {numerics : Numerics} {layout : Layout} {progress : Progress} {before early between : Board}
  {operand left right : Expression} {holds : Bool}

/-- Answers that agree on all that is asked judge alike. -/
theorem Judged.congr {answers others : Answers} {condition : Expression}
    {asked : List (Question × Standing)}
    (judged : condition.Judged numerics layout answers progress before asked holds)
    (agree : ∀ entry ∈ asked, answers entry.1 entry.2 = others entry.1 entry.2) :
    condition.Judged numerics layout others progress before asked holds := by
  -- What an operand asks is among what the whole condition asks.
  induction judged with
  | counts real runs there =>
    rw [agree (.counts, _) (by simp)]
    exact .counts real runs there
  | compares real runs here goesOn still there =>
    rw [agree (.compares _, _) (by simp)]
    exact .compares real runs here goesOn still there
  | not _ ih => exact .not (ih agree)
  | decided _ ih => exact .decided (ih agree)
  | undecided _ tests _ early late =>
    exact .undecided (early fun entry member => agree entry (by simp [member])) tests
      (late fun entry member => agree entry (by simp [member]))

section

variable {answers : Answers} {asked : List (Question × Standing)}

theorem decision_injective {one two : Bool} (same : decision one = decision two) : one = two := by
  cases one <;> cases two <;> first | rfl | cases same

theorem decision_ne_compare (either : Bool) (relation : Comparison) :
    decision either ≠ .compare relation := by
  cases either <;> simp [decision]

/-- A number is only asked whether it counts. -/
theorem Judged.of_real (judged : operand.Judged numerics layout answers progress before asked holds)
    (real : operand.type.isReal = true) :
    ∃ between number, operand.runs (numerics.machine layout) progress before .onward between ∧
      between.number? layout (operand.lowered progress).value = some number ∧
      asked = [(.counts, numerics.order number 0)] ∧
      holds = answers .counts (numerics.order number 0) := by
  -- All other conditions are words.
  cases judged with
  | counts _ runs there => exact ⟨_, _, runs, there, rfl, rfl⟩
  | _ => cases real

/-- A comparison is only asked about its operands. -/
theorem Judged.of_compare {relation : Comparison} (judged : (Expression.binary (.compare relation)
      left right .int).Judged numerics layout answers progress before asked holds) :
    ∃ middle between first second,
      left.runs (numerics.machine layout) progress before .onward middle ∧
      right.runs (numerics.machine layout) (left.after progress) middle .onward between ∧
      between.number? layout (left.lowered progress).value = some first ∧
      between.number? layout (right.lowered (left.after progress)).value = some second ∧
      asked = [(.compares relation, numerics.order first second)] ∧
      holds = answers (.compares relation) (numerics.order first second) := by
  -- The condition is named, since a decision is no constructor that could be told from a comparison.
  generalize node : Expression.binary (.compare relation) left right .int = condition at judged
  cases judged with
  | counts real =>
    rw [← node] at real
    cases real
  | compares _ runs _ goesOn still there =>
    cases node
    exact ⟨_, _, _, _, runs, goesOn, still, there, rfl, rfl⟩
  | not => cases node
  | decided | undecided =>
    injection node with same
    exact absurd same.symm (decision_ne_compare _ relation)

/-- A decision asks its left operand, and the right one unless that decides. -/
theorem Judged.of_decision {either : Bool} (judged : (Expression.binary (decision either) left right
      .int).Judged numerics layout answers progress before asked holds) :
    (left.Judged numerics layout answers (progress.enter .int) before asked either ∧
      holds = either) ∨
    ∃ between first later,
      left.Judged numerics layout answers (progress.enter .int) before first (!either) ∧
      left.tests (numerics.machine layout) (progress.enter .int) before .onward between ∧
      right.Judged numerics layout answers (left.after (progress.enter .int)) between later holds ∧
      asked = first ++ later := by
  -- The other ways to judge a condition are for other nodes than a decision.
  generalize node : Expression.binary (decision either) left right .int = condition at judged
  cases judged with
  | counts real =>
    rw [← node] at real
    cases real
  | compares =>
    injection node with same
    exact absurd same (decision_ne_compare either _)
  | not => cases node
  | decided first =>
    injection node with same
    obtain rfl := decision_injective same
    subst_vars
    exact .inl ⟨first, rfl⟩
  | undecided first tests second =>
    injection node with same
    obtain rfl := decision_injective same
    subst_vars
    exact .inr ⟨_, _, _, first, tests, second, rfl⟩

/-- The same answers judge a condition in one way. -/
theorem Judged.unique {condition : Expression} {others : List (Question × Standing)} {verdict : Bool}
    (judged : condition.Judged numerics layout answers progress before asked holds)
    (again : condition.Judged numerics layout answers progress before others verdict) :
    others = asked ∧ verdict = holds := by
  -- Every operand runs in one way, so the same numbers are found and the same operands are asked.
  induction judged generalizing others verdict with
  | counts real runs there =>
    obtain ⟨_, _, runs', there', rfl, rfl⟩ := again.of_real real
    obtain ⟨-, rfl⟩ := certain_runs _ _ runs runs'
    obtain rfl := Option.some.inj (there.symm.trans there')
    exact ⟨rfl, rfl⟩
  | compares _ runs _ goesOn still there =>
    obtain ⟨_, _, _, _, runs', goesOn', still', there', rfl, rfl⟩ := again.of_compare
    obtain ⟨-, rfl⟩ := certain_runs _ _ runs runs'
    obtain ⟨-, rfl⟩ := certain_runs _ _ goesOn goesOn'
    obtain rfl := Option.some.inj (still.symm.trans still')
    obtain rfl := Option.some.inj (there.symm.trans there')
    exact ⟨rfl, rfl⟩
  | not _ ih =>
    cases again with
    | counts real => cases real
    | not again =>
      obtain ⟨rfl, rfl⟩ := ih again
      exact ⟨rfl, rfl⟩
  | decided _ ih =>
    obtain ⟨first, rfl⟩ | ⟨_, _, _, first, -, -, -⟩ := again.of_decision
    · exact ⟨(ih first).1, rfl⟩
    · have other := (ih first).2
      simp at other
  | undecided _ tests _ early late =>
    obtain ⟨first, rfl⟩ | ⟨_, _, _, first, tests', second, rfl⟩ := again.of_decision
    · have other := (early first).2
      simp at other
    · obtain ⟨rfl, -⟩ := early first
      obtain ⟨-, rfl⟩ := certain_tests _ _ tests tests'
      obtain ⟨rfl, rfl⟩ := late second
      exact ⟨rfl, rfl⟩

end

variable (numerics layout) in
/-- From a board the condition is tested, and the jump behind it goes the way of the outcome. -/
def Decides (condition : Expression) (progress : Progress) (before : Board) (holds : Bool) : Prop :=
  ∃ after, condition.tests (numerics.machine layout) progress before .onward after ∧
    (numerics.machine layout).nonzero after = some (holds, after)

variable (numerics layout) in
/-- From a board the code of the condition runs to its end and leaves one for true and zero for
false. -/
def Tells (condition : Expression) (progress : Progress) (before : Board) (holds : Bool) : Prop :=
  ∃ after, condition.runs (numerics.machine layout) progress before .onward after ∧
    after.processor.Shows layout (condition.lowered progress).value .long (truth holds)

variable (numerics layout) in
/-- A known condition of equality tells the way. -/
theorem nonzero_of_flags {flags : Flags} (known : before.processor.flags = some flags) :
    (numerics.machine layout).nonzero before = some (!flags.zero, before) := by
  show before.processor.flags.map _ = _
  rw [known]
  rfl

/-- A computed number is tested by what is read from the conditions. -/
theorem decides_number {number : BitVec 64} (real : operand.type.isReal = true)
    (runs : operand.runs (numerics.machine layout) progress before .onward between)
    (there : between.number? layout (operand.lowered progress).value = some number) :
    operand.Decides numerics layout progress before
      (Question.read .counts (numerics.order number 0)) := by
  -- The jump reads the condition of equality with zero.
  obtain ⟨after, visited, notes⟩ := Board.visit_compareZero numerics real there
  obtain ⟨flags, known, zero, -⟩ := notes.flags
  have outcome := nonzero_of_flags numerics layout known
  rw [zero] at outcome
  exact ⟨after, .inl ⟨between, runs, visited⟩, outcome⟩

/-- A condition that has been computed as a word may be tested. -/
theorem Tells.decides {condition : Expression} (word : condition.type = .int)
    (tells : condition.Tells numerics layout progress before holds) :
    condition.Decides numerics layout progress before holds := by
  -- One is different from zero, and zero is not.
  obtain ⟨between, runs, shows⟩ := tells
  have integral : condition.type.isReal = false := by
    rw [word]
    rfl
  have long : Width.of condition.type = .long := by
    rw [word]
    rfl
  rw [← long] at shows
  obtain ⟨after, executed, -, flags⟩ := execute_compareZero integral shows
  refine ⟨_, .inl ⟨between, runs, Board.visit_of_words numerics executed⟩, ?_⟩
  rw [nonzero_of_flags numerics layout flags]
  cases holds <;> rfl

variable (numerics) in
/-- A stored truth value is there. -/
theorem visit_stores {own : Code} {offset : Int}
    (stores : Stores layout own between.processor offset 4 (truth holds)) :
    ∃ after, (numerics.machine layout).visit own between .onward after ∧
      after.processor.Shows layout (.frame offset) .long (truth holds) := by
  -- The base of the frame does not move, so what was written is read from the same place.
  obtain ⟨after, executed, base, -, written⟩ := stores
  refine ⟨_, Board.visit_of_words numerics executed, ?_⟩
  intro other same memory
  have there : other.memory.read (other.ebp + BitVec.ofInt 32 offset) .long = truth holds := by
    rw [memory, same, base, written]
    exact Memory.word_write _ _ _
  rw [Processor.loads_storage (by simp) rfl, there]

/-- A negation reads the same conditions as a test of its operand. -/
theorem Decides.not (decides : operand.Decides numerics layout progress before holds) :
    (Expression.unary .not operand .int).Tells numerics layout progress before (!holds) := by
  -- Both run the operand and compare it with zero; then one jumps and the other one stores.
  obtain ⟨early, tested, outcome⟩ := decides
  obtain ⟨between, runs, compared⟩ | ⟨elsewhere, -⟩ := tested
  · obtain ⟨flags, known, same⟩ := Option.map_eq_some_iff.mp outcome
    have zero : (!flags.zero) = holds := congrArg Prod.fst same
    have condition : Opcode.sete.condition? flags = some !holds := by
      rw [← zero, Bool.not_not]
      rfl
    obtain ⟨after, stored, shows⟩ := visit_stores numerics
      (stores_condition known condition ((operand.after progress).frame.offset - 4))
    refine ⟨after, ?_, ?_⟩
    · rw [runs_unary (by decide), own_not]
      exact .inl ⟨between, runs, Board.visit_append compared stored⟩
    · rw [value_result progress rfl rfl]
      exact shows
  · exact absurd rfl elsewhere

/-- A comparison of computed numbers stores what is read from the conditions. -/
theorem tells_compare {relation : Comparison} {first second : BitVec 64} {middle : Board}
    (real : left.type.isReal = true)
    (runs : left.runs (numerics.machine layout) progress before .onward middle)
    (goesOn : right.runs (numerics.machine layout) (left.after progress) middle .onward between)
    (here : between.number? layout (left.lowered progress).value = some first)
    (there : between.number? layout (right.lowered (left.after progress)).value = some second) :
    (Expression.binary (.compare relation) left right .int).Tells numerics layout progress before
      (Question.read (.compares relation) (numerics.order first second)) := by
  -- The operands run, and the node's own code compares what they left and stores a condition.
  obtain ⟨compared, visited, notes⟩ := Board.visit_compare numerics here there
  obtain ⟨flags, known, zero, carry⟩ := notes.flags
  obtain ⟨after, stored, shows⟩ := visit_stores numerics (stores_condition known
    (Question.condition_read relation real zero carry)
    ((right.after (left.after progress)).frame.offset - 4))
  refine ⟨after, ?_, ?_⟩
  · rw [runs_compare, own_binary progress rfl, operateOn, compareValues, if_pos real]
    exact .inl ⟨middle, runs, .inl ⟨between, goesOn, Board.visit_append visited stored⟩⟩
  · rw [value_result progress rfl rfl]
    exact shows

variable (numerics layout) in
/-- A truth value is stored where decisions leave theirs. -/
theorem visit_settling (holds : Bool) (early : Board) (progress : Progress) : ∃ after,
    (numerics.machine layout).visit (settling holds (progress.skip.skip.slot .int)) early .onward
        after ∧
      after.processor.Shows layout (progress.skip.skip.slot .int) .long (truth holds) := by
  -- One and zero are written as words.
  apply visit_stores
  cases holds <;> exact ⟨early.processor.stored _ 4 (truth _), rfl, rfl, rfl, rfl⟩

/-- A decision whose left operand decides stores what that one says. -/
theorem Decides.decided {either : Bool}
    (first : left.Decides numerics layout (progress.enter .int) before either) :
    (Expression.binary (decision either) left right .int).Tells numerics layout progress before
      either := by
  obtain ⟨early, begun, outcome⟩ := first
  -- The right operand is skipped, and the result is what decided.
  obtain ⟨after, settled, shows⟩ := visit_settling numerics layout either early
    progress
  refine ⟨after, ?_, ?_⟩
  · rw [runs_decision]
    exact decides_left begun outcome settled
  · rw [value_settled]
    exact shows

/-- A decision whose left operand does not decide stores what the right one says. -/
theorem Decides.undecided {either : Bool}
    (begun : left.tests (numerics.machine layout) (progress.enter .int) before .onward early)
    (outcome : (numerics.machine layout).nonzero early = some (!either, early))
    (second : right.Decides numerics layout (left.after (progress.enter .int)) early holds) :
    (Expression.binary (decision either) left right .int).Tells numerics layout progress before
      holds := by
  obtain ⟨late, ended, said⟩ := second
  -- The left operand goes on to the right one, which settles the result.
  obtain ⟨after, settled, shows⟩ := visit_settling numerics layout holds late
    progress
  refine ⟨after, ?_, ?_⟩
  · rw [runs_decision]
    exact decides_right begun outcome ended said settled
  · rw [value_settled]
    exact shows

/-- What is judged by the conditions of the processor is what the code decides and, apart from numbers
that are conditions themselves, computes. -/
theorem Judged.decides {condition : Expression} {asked : List (Question × Standing)}
    (judged : condition.Judged numerics layout Question.read progress before asked holds) :
    condition.Decides numerics layout progress before holds ∧
      (condition.type = .int → condition.Tells numerics layout progress before holds) := by
  -- The induction is on how the condition is judged, and every node but a number is a word.
  induction judged with
  | counts real runs there =>
    refine ⟨decides_number real runs there, ?_⟩
    intro word
    rw [word] at real
    cases real
  | @compares relation _ _ _ _ _ _ _ _ real runs _ goesOn still there =>
    have tells := @tells_compare _ _ _ _ _ _ _ relation _ _ _ real runs goesOn still there
    exact ⟨tells.decides rfl, fun _ => tells⟩
  | not _ ih =>
    have tells := ih.1.not
    exact ⟨tells.decides rfl, fun _ => tells⟩
  | @decided either left right _ _ _ _ ih =>
    have tells : (Expression.binary (decision either) left right .int).Tells numerics layout _ _
      either := ih.1.decided
    exact ⟨tells.decides rfl, fun _ => tells⟩
  | @undecided either holds left right _ _ between _ _ _ tests _ early late =>
    -- The run of the left operand is the one that has been asked about.
    obtain ⟨reached, begun, outcome⟩ := early.1
    obtain ⟨-, rfl⟩ := left.certain_tests _ tests begun
    have tells := Decides.undecided begun outcome late.1
    exact ⟨tells.decides rfl, fun _ => tells⟩

/-- What a condition decides is where control goes from a test for zero. -/
theorem Decides.branches {condition : Expression}
    (decides : condition.Decides numerics layout progress before holds) {target : Label}
    {items : List Item} {start stop there : Nat}
    (placed : Placed items start (branchIfZero condition target progress).1 stop)
    (found : placeOf items target = some there) : ∃ after,
      (numerics.machine layout).Steps items (start, before)
        (if holds then stop else there, after) := by
  -- The test runs along the code before the jump, and the jump is one more step.
  obtain ⟨after, tests, outcome⟩ := decides
  rw [Statement.branchIfZero_eq] at placed
  obtain ⟨middle, tested, jump, -, rfl⟩ := placed_append.mp placed
  have follows : (numerics.machine layout).Follows items { function := target } start middle
      (condition.tests (numerics.machine layout) progress) := condition.follows_tests progress tested
  obtain ⟨place, steps, rfl⟩ := follows _ _ _ tests
  have branches : (numerics.machine layout).step items (place, after) =
      some (if holds then place + 1 else there, after) := by
    cases holds <;> simp [Machine.step, jump, operate, outcome, found]
  exact ⟨after, steps.trans (.single branches)⟩

/-- Whether a floating-point number is there without any code: in a variable or as a constant. -/
def isStored : Expression → Bool
  | .real _ => true
  | .identifier _ type => type.isReal
  | _ => false

/-- Conditions on floating-point numbers that are stored. -/
inductive OnStored : Expression → Prop where
  | counts {operand : Expression} (stored : operand.isStored = true) : OnStored operand
  | compares (relation : Comparison) {left right : Expression} (first : left.isStored = true)
    (second : right.isStored = true) : OnStored (.binary (.compare relation) left right .int)
  | not {operand : Expression} (part : OnStored operand) : OnStored (.unary .not operand .int)
  | decision (either : Bool) {left right : Expression} (first : OnStored left)
    (second : OnStored right) : OnStored (.binary (decision either) left right .int)

/-- A stored number is found where it is, from any board. -/
theorem stored_found (stored : operand.isStored = true) (progress : Progress) (board : Board) :
    operand.type.isReal = true ∧
      operand.runs (numerics.machine layout) progress board .onward board ∧
      ∃ number, board.number? layout (operand.lowered progress).value = some number := by
  -- Variables and constants have addresses, and nothing runs before they are read.
  cases operand with
  | real spelling =>
    refine ⟨rfl, runs_leaf rfl progress board, ?_⟩
    rw [lowered, lower_real]
    exact ⟨_, rfl⟩
  | identifier symbol type =>
    refine ⟨stored, runs_leaf rfl progress board, ?_⟩
    rw [lowered, lower_identifier, Board.number?, address_operandOf]
    exact ⟨_, rfl⟩
  | _ => cases stored

/-- Every condition on stored numbers is judged, from any board. -/
theorem OnStored.judged {condition : Expression} (stored : condition.OnStored)
    (numerics : Numerics) (layout : Layout) (answers : Answers) (progress : Progress)
    (before : Board) : ∃ asked holds,
      condition.Judged numerics layout answers progress before asked holds := by
  -- The induction is on the condition, for all boards, since a right operand starts behind a left one.
  induction stored generalizing answers progress before with
  | counts stored =>
    obtain ⟨real, runs, number, there⟩ := stored_found stored progress before
    exact ⟨_, _, .counts real runs there⟩
  | compares relation first second =>
    obtain ⟨real, runs, number, here⟩ := stored_found first progress before
    obtain ⟨-, goesOn, other, there⟩ := stored_found second (Expression.after _ progress) before
    exact ⟨_, _, .compares real runs here goesOn here there⟩
  | not _ ih =>
    obtain ⟨asked, holds, judged⟩ := ih answers progress before
    exact ⟨_, _, .not judged⟩
  | @decision either left right _ _ first second =>
    obtain ⟨asked, holds, judged⟩ := first answers (progress.enter .int) before
    by_cases decided : holds = either
    · subst decided
      exact ⟨_, _, .decided judged⟩
    · -- The left operand has a run, whatever the answers make of it.
      have undecided : holds = !either := by
        cases holds <;> cases either <;> simp at decided ⊢
      subst undecided
      obtain ⟨_, _, read⟩ := first Question.read (progress.enter .int) before
      obtain ⟨⟨between, tests, -⟩, -⟩ := read.decides
      obtain ⟨later, holds, goesOn⟩ := second answers (left.after (progress.enter .int)) between
      exact ⟨_, _, .undecided judged tests goesOn⟩

end

end Expression

namespace Statement

/-- The condition of a statement, what has been handed out before it, and where control goes from it
when it fails. -/
def branch? (exits : Exits) : Statement → Progress → Option (Expression × Progress × Label)
  | .ifThen test _, progress | .ifElse test _ _, progress =>
    some (test, progress.skip, progress.label)
  | .whileLoop test _, progress => some (test, progress.skip.skip, progress.skip.label)
  | .forLoop init test _ _, progress =>
    some (test, init.after exits progress.skip.skip, progress.skip.label)
  | _, _ => none

/-- The code of a statement with a condition has the branch on it in one piece. -/
theorem branch_infix {exits : Exits} {statement : Statement} {progress entry : Progress}
    {condition : Expression} {target : Label}
    (test : statement.branch? exits progress = some (condition, entry, target)) :
    (branchIfZero condition target entry).1 <:+: statement.lowered exits progress := by
  -- In a loop the branch is behind the label of the test, and elsewhere it comes first.
  unfold lowered
  cases statement with
  | ifThen _ body =>
    cases test
    rw [lower_ifThen, branchIfZero_eq]
    exact ((List.prefix_append _ _).trans (List.prefix_append _ _)).isInfix
  | ifElse _ body otherwise =>
    cases test
    rw [lower_ifElse, branchIfZero_eq]
    exact ((List.prefix_append _ _).trans ((List.prefix_append _ _).trans
      ((List.prefix_append _ _).trans (List.prefix_append _ _)))).isInfix
  | whileLoop _ body =>
    cases test
    rw [lower_whileLoop, branchIfZero_eq]
    exact (List.suffix_cons _ _).isInfix.trans
      ((List.prefix_append _ _).trans (List.prefix_append _ _)).isInfix
  | forLoop init _ increment body =>
    cases test
    rw [lower_forLoop, branchIfZero_eq]
    exact ((List.suffix_cons _ _).trans (List.suffix_append _ _)).isInfix.trans
      ((List.prefix_append _ _).trans
        ((List.prefix_append _ _).trans (List.prefix_append _ _))).isInfix
  | _ => cases test

end Statement

/-- A condition on floating-point numbers computes what the language says, and as a test goes where the
language says, as long as every question it asks is one that the conditions of the processor answer
right. The language says one thing at most; the numbers may be any that can be computed, and stored ones
always can. -/
theorem conditions_judged (numerics : Numerics) (layout : Layout) (condition : Expression)
    (progress : Progress) (before : Board) :
    let machine := numerics.machine layout
    let judged := condition.Judged numerics layout Question.answer progress before
    (condition.OnStored → ∃ asked holds, judged asked holds) ∧
    (∀ asked holds others verdict, judged asked holds → judged others verdict →
      others = asked ∧ verdict = holds) ∧
    (∀ exits statement own target,
      Statement.branch? exits statement own = some (condition, progress, target) →
        (branchIfZero condition target progress).1 <:+: statement.lowered exits own) ∧
    (∀ question standing,
      Question.read question standing = question.answer standing ↔ question.Sound standing) ∧
    ∀ asked holds, judged asked holds → (∀ entry ∈ asked, entry.1.Sound entry.2) →
      (condition.type = .int → ∃ after,
        (∀ items start stop, Placed items start (condition.lowered progress).code stop →
          machine.Steps items (start, before) (stop, after)) ∧
        after.processor.loads? layout (condition.lowered progress).value .long =
          some (truth holds)) ∧
      (∀ target items start stop there,
        Placed items start (branchIfZero condition target progress).1 stop →
          placeOf items target = some there → ∃ after,
            machine.Steps items (start, before) (if holds then stop else there, after)) := by
  refine ⟨fun stored => stored.judged numerics layout Question.answer progress before,
    fun _ _ _ _ judged again => judged.unique again,
    fun _ _ _ _ test => Statement.branch_infix test, Question.read_eq_answer, ?_⟩
  intro asked holds judged sound
  -- Where the conditions answer right, they judge as the language does.
  have read := judged.congr fun entry member =>
    ((Question.read_eq_answer _ _).mpr (sound entry member)).symm
  obtain ⟨decides, tells⟩ := read.decides
  refine ⟨fun word => ?_, fun target items start stop there placed found => ?_⟩
  · obtain ⟨after, runs, shows⟩ := tells word
    exact ⟨after, fun items start stop placed => Expression.steps_of_runs runs placed,
      shows _ rfl rfl⟩
  · exact decides.branches placed found

/-- A function with two floating-point parameters has been entered. -/
def pairEntry : Progress where
  symbols := { scopes := [{ enclosing := none, symbols := [⟨"x", .double, 8⟩, ⟨"y", .double, 16⟩] }] }
  nextLabel := 1

/-- The caller has passed one and what is no number. -/
def pairBoard : Board where
  processor := {
    eax := 0
    ecx := 0
    edx := 0
    ebp := 0x1000
    esp := 0x0f00
    flags := none
    memory := (Memory.writeNumber (fun _ => 0) 0x1008 0x3ff0000000000000).writeNumber 0x1010
      0x7ff8000000000000 }
  numbers := []
  status := 0
  parity := false

/-- The first parameter. -/
def firstNumber : Expression := .identifier ⟨0, 0⟩ .double

/-- The second parameter. -/
def secondNumber : Expression := .identifier ⟨0, 1⟩ .double

section

variable {progress : Progress} (symbols : progress.symbols = pairEntry.symbols)

include symbols

/-- The parameters are found where the caller has put them. -/
theorem pair_found :
    pairBoard.number? Expression.halfLayout (firstNumber.lowered progress).value =
        some 0x3ff0000000000000 ∧
      pairBoard.number? Expression.halfLayout (secondNumber.lowered progress).value =
        some 0x7ff8000000000000 := by
  have first : pairBoard.number? Expression.halfLayout
      (Expression.operandOf pairEntry.symbols ⟨0, 0⟩) = some 0x3ff0000000000000 := by decide +kernel
  have second : pairBoard.number? Expression.halfLayout
      (Expression.operandOf pairEntry.symbols ⟨0, 1⟩) = some 0x7ff8000000000000 := by decide +kernel
  unfold Expression.lowered firstNumber secondNumber
  rw [Expression.lower_identifier, Expression.lower_identifier, symbols]
  exact ⟨first, second⟩

/-- The parameters stand to each other as no two numbers do. -/
theorem judged_compares (relation : Comparison) (answers : Answers) :
    (Expression.binary (.compare relation) firstNumber secondNumber .int).Judged doubles
      Expression.halfLayout answers progress pairBoard [(.compares relation, .unordered)]
        (answers (.compares relation) .unordered) := by
  -- One is compared with a value that is not a number.
  have order : doubles.order 0x3ff0000000000000 0x7ff8000000000000 = .unordered := by
    decide +kernel
  obtain ⟨real, runs, -⟩ := @Expression.stored_found doubles Expression.halfLayout firstNumber rfl
    progress pairBoard
  obtain ⟨-, goesOn, -⟩ := @Expression.stored_found doubles Expression.halfLayout secondNumber rfl
    (firstNumber.after progress) pairBoard
  rw [← order]
  obtain ⟨here, -⟩ := pair_found symbols
  obtain ⟨-, there⟩ := @pair_found (firstNumber.after progress) symbols
  exact .compares real runs here goesOn here there

/-- What is no number stands so to zero. -/
theorem judged_counts (answers : Answers) :
    secondNumber.Judged doubles Expression.halfLayout answers progress pairBoard
      [(.counts, .unordered)] (answers .counts .unordered) := by
  have order : doubles.order 0x7ff8000000000000 0 = .unordered := by decide +kernel
  obtain ⟨real, runs, -⟩ := @Expression.stored_found doubles Expression.halfLayout secondNumber rfl
    progress pairBoard
  rw [← order]
  exact .counts real runs (pair_found symbols).2

end

/-- One is not greater than what is no number, so the right operand is not asked whether it counts. -/
theorem conditions_judged_greater :
    let machine := doubles.machine Expression.halfLayout
    let greater := Expression.binary (.compare .greater) firstNumber secondNumber .int
    let condition := Expression.binary .logicalOr (.unary .not greater .int) secondNumber .int
    (condition.Judged doubles Expression.halfLayout Question.answer pairEntry pairBoard
        [(.compares .greater, .unordered)] true ∧
      Question.Sound (.compares .greater) .unordered) ∧
    ∃ after, machine.Steps (condition.lowered pairEntry).code (0, pairBoard)
        ((condition.lowered pairEntry).code.length, after) ∧
      after.processor.loads? Expression.halfLayout (condition.lowered pairEntry).value .long =
        some 1 := by
  have first : (Expression.unary .not
      (.binary (.compare .greater) firstNumber secondNumber .int) .int).Judged doubles
        Expression.halfLayout Question.answer (pairEntry.enter .int) pairBoard
          [(.compares .greater, .unordered)] true :=
    .not (@judged_compares (pairEntry.enter .int) rfl .greater Question.answer)
  have judged := @Expression.Judged.decided _ _ _ true _ secondNumber _ _ _ first
  obtain ⟨-, -, -, -, judges⟩ := conditions_judged doubles Expression.halfLayout (.binary .logicalOr
    (.unary .not (.binary (.compare .greater) firstNumber secondNumber .int) .int) secondNumber .int)
    pairEntry pairBoard
  obtain ⟨computes, -⟩ := judges _ _ judged (by simp [Question.Sound])
  obtain ⟨after, steps, loads⟩ := computes rfl
  exact ⟨⟨judged, trivial⟩, after, steps _ _ _ (Expression.placed_lowered _ _), loads⟩

/-- A function that compares its parameters. -/
def lessSource : String := "int f(double x, double y) \x7b return x < y; \x7d"

/-- One is not less than what is no number, and the language says so, but the code leaves one for it. What
is no number counts as true, but the jump for zero is taken. -/
theorem less_unordered :
    let machine := doubles.machine Expression.halfLayout
    let less := Expression.binary (.compare .less) firstNumber secondNumber .int
    (∃ compilation, compile {} "<input>" lessSource = .ok compilation ∧
      compilation.diagnostics = [] ∧
      compilation.assembly = assemblyText "" (itemsFrom {} lessSource) ∧
      (less.lowered pairEntry).code <:+: itemsFrom {} lessSource) ∧
    (less.Judged doubles Expression.halfLayout Question.answer pairEntry pairBoard
        [(.compares .less, .unordered)] false ∧
      ∃ after, machine.Steps (less.lowered pairEntry).code (0, pairBoard)
          ((less.lowered pairEntry).code.length, after) ∧
        after.processor.loads? Expression.halfLayout (less.lowered pairEntry).value .long =
          some 1) ∧
    secondNumber.Judged doubles Expression.halfLayout Question.answer pairEntry pairBoard
        [(.counts, .unordered)] true ∧
      ∃ after, secondNumber.tests machine pairEntry pairBoard .onward after ∧
        machine.nonzero after = some (false, after) := by
  have reads : readsSilently {} lessSource = true := by cbv
  have code : (itemsFrom {} lessSource).drop 5 = ((Expression.binary (.compare .less) firstNumber
      secondNumber .int).lowered pairEntry).code ++ (itemsFrom {} lessSource).drop 12 := by cbv
  obtain ⟨compilation, compiled, silent⟩ := compile_silent reads "<input>"
  obtain ⟨globals, checker, concludes⟩ := compile_concludes compiled
  have read := @judged_compares pairEntry rfl .less Question.read
  obtain ⟨-, tells⟩ := read.decides
  obtain ⟨after, runs, shows⟩ := tells rfl
  obtain ⟨decides, -⟩ := (@judged_counts pairEntry rfl Question.read).decides
  refine ⟨⟨compilation, compiled, silent, concludes.assembly, ?_⟩,
    ⟨judged_compares rfl .less Question.answer, after,
      Expression.steps_of_runs runs (Expression.placed_lowered _ _), shows _ rfl rfl⟩,
    judged_counts rfl Question.answer, decides⟩
  -- The comparison stands behind the start of the function.
  refine ⟨(itemsFrom {} lessSource).take 5, (itemsFrom {} lessSource).drop 12, ?_⟩
  rw [List.append_assoc, ← code, List.take_append_drop]

end SmallC
