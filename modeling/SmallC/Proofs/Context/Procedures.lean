import SmallC.Proofs.Context.Tallies

/-! Expressions and statements give their context back, however the reading ends. -/

namespace SmallC

namespace Counted

variable {before : Context}

/-- Operands that are read alike are judged alike behind their operator. -/
theorem restores_unary {counted : Counted Expression} {reading : Reading Expression}
    (operand : Restores before counted reading) (judge : Expression → Verdict Expression) :
    Restores before (do discard (plain Reading.advance); plain (Reading.check (judge (← counted))))
      (do discard Reading.advance; Reading.check (judge (← reading))) :=
  .skip .advance (operand.next fun _ => .steady (.check _))

mutual

theorem restores_expression (clock : Nat) (before : Context) (enough : before.levels ≤ clock) :
    Restores before (expression clock) (Reading.expression before.levels) := by
  unfold expression Reading.expression
  exact .level enough fun less _ enough => restores_operation Tier.all less before.deeper enough
termination_by (clock, 0)

theorem restores_operation : (tiers : List Tier) → (clock : Nat) → (before : Context) →
    before.levels ≤ clock →
    Restores before (operation tiers clock) (Reading.operation tiers before.levels)
  | [], clock, before, enough => by
    unfold operation Reading.operation
    exact restores_prefixed clock before enough
  | tier :: tighter, clock, before, enough => by
    unfold operation Reading.operation
    -- The levels that the operators open are given back where the chain ends.
    exact .chain ((restores_operation tighter clock before enough).next fun left =>
      tallies_furtherOperands tier tighter left clock before enough)
termination_by tiers clock => (clock, tiers.length + 4)

theorem tallies_furtherOperands (tier : Tier) (tighter : List Tier) (left : Expression)
    (clock : Nat) (before : Context) (enough : before.levels ≤ clock) :
    Tallies False before (furtherOperands tier tighter left clock)
      (Reading.furtherOperands tier tighter left before.levels) fun _ => before := by
  unfold furtherOperands Reading.furtherOperands
  refine .kind fun found => ?_
  cases tier.rule? found with
  | none => exact .pure _
  | some rule =>
    -- Every operator opens a level, and what follows it starts from there.
    refine .link enough fun less _ enough => .skip .advance ?_
    refine (restores_operation tighter less before.deeper enough).next fun right => ?_
    refine Tallies.next (.steady (.check _)) fun joined => ?_
    exact tallies_furtherOperands tier tighter joined less before.deeper enough
termination_by (clock, 0)

theorem restores_prefixed (clock : Nat) (before : Context) (enough : before.levels ≤ clock) :
    Restores before (prefixed clock) (Reading.prefixed before.levels) := by
  unfold prefixed Reading.prefixed
  refine .level enough fun less _ enough => ?_
  -- The operand and what is suffixed start with one level less on the clock, in a context that is
  -- one level deeper.
  have operand := restores_prefixed less before.deeper enough
  have suffixed := restores_suffixed less before.deeper enough
  refine Tallies.next (.steady Reading.steady.startsTypeName) fun typed => .kind fun found => ?_
  cases found with
  | bang => exact restores_unary operand _
  | minus => exact restores_unary operand _
  | star => exact restores_unary operand _
  | ampersand => exact restores_unary operand _
  | sizeofWord =>
    refine .skip .advance (Tallies.next (.steady Reading.steady.startsTypeName) fun named => ?_)
    split
    · exact Tallies.next (.steady Reading.steady.typeName) fun type => .pure _
    · exact operand.next fun _ => .steady (.check _)
  | leftParen =>
    dsimp only
    split
    · refine Tallies.next (.steady Reading.steady.typeName) fun target => ?_
      exact operand.next fun _ => .steady (.check _)
    · exact suffixed
  | _ => exact suffixed
termination_by (clock, 3)

theorem restores_suffixed (clock : Nat) (before : Context) (enough : before.levels ≤ clock) :
    Restores before (suffixed clock) (Reading.suffixed before.levels) := by
  unfold suffixed Reading.suffixed
  exact .chain ((restores_primary clock before enough).next fun operand =>
    tallies_furtherSuffixes operand clock before enough)
termination_by (clock, 2)

theorem tallies_furtherSuffixes (operand : Expression) (clock : Nat) (before : Context)
    (enough : before.levels ≤ clock) :
    Tallies False before (furtherSuffixes operand clock)
      (Reading.furtherSuffixes operand before.levels) fun _ => before := by
  -- A suffix takes the result of the one before, so each opens a level that stays open to the end
  -- of the chain.
  unfold furtherSuffixes Reading.furtherSuffixes
  refine .kind fun found => ?_
  cases found with
  | leftBracket =>
    refine .link enough fun less _ enough => .skip .advance ?_
    refine (restores_expression less before.deeper enough).next fun index => ?_
    refine Tallies.next (.steady (.check _)) fun element => .skip (.expect _) ?_
    exact tallies_furtherSuffixes element less before.deeper enough
  | increment =>
    refine .link enough fun less _ enough => Tallies.next (.steady (.check _)) fun stepped => ?_
    exact .skip .advance (tallies_furtherSuffixes stepped less before.deeper enough)
  | decrement =>
    refine .link enough fun less _ enough => Tallies.next (.steady (.check _)) fun stepped => ?_
    exact .skip .advance (tallies_furtherSuffixes stepped less before.deeper enough)
  | _ => exact .pure _
termination_by (clock, 0)

theorem restores_primary (clock : Nat) (before : Context) (enough : before.levels ≤ clock) :
    Restores before (primary clock) (Reading.primary before.levels) := by
  have inside := restores_expression clock before enough
  unfold primary Reading.primary
  refine .kind fun found => ?_
  cases found with
  | leftParen =>
    refine .skip .advance (inside.next fun inner => ?_)
    exact .skip (.expect _) (.pure _)
  | character | string | real => exact Tallies.next (.steady .advance) fun token => .pure _
  | integer => exact Tallies.next (.steady Reading.steady.wholeNumber) fun value => .pure _
  | identifier =>
    refine Tallies.next (.steady Reading.steady.name) fun name => ?_
    refine Tallies.next (.steady (Reading.steady_resolve name)) fun symbol => .kind fun follows => ?_
    -- Behind the name a parenthesis opens the arguments of a call.
    split
    · refine .skip .advance ((Tallies.callArguments inside).next fun arguments => ?_)
      refine Tallies.next (.steady (Reading.steady_call _ _)) fun call => ?_
      exact .skip (.expect _) (.pure _)
    · exact .get fun reader here => .pure _
  | _ => exact .steady .unexpected
termination_by (clock, 1)

end

section Statements

variable {clock : Nat}

theorem restores_assignment (enough : before.levels ≤ clock) :
    Restores before (assignment clock) (Reading.assignment before.levels) := by
  have value := restores_expression clock before enough
  unfold assignment Reading.assignment
  refine value.next fun left => .kind fun found => ?_
  split
  · exact .skip .advance (value.next fun right => .steady (.check _))
  · exact .pure _

theorem restores_condition (enough : before.levels ≤ clock) :
    Restores before (condition clock) (Reading.condition before.levels) := by
  unfold condition Reading.condition
  refine .skip (.expect _) ((restores_expression clock before enough).next fun value => ?_)
  exact Tallies.next (.steady (.check _)) fun test => .skip (.expect _) (.pure _)

/-- Statements give the scopes back as well, because a block closes the scope that it opens. -/
theorem restores_statement (clock : Nat) (before : Context) (enough : before.levels ≤ clock) :
    Restores before (statement clock) (Reading.statement before.levels) := by
  unfold statement Reading.statement
  refine .level enough fun less _ enough => ?_
  -- The body of a loop is one turn deeper than the branches of a conditional, so both are kept at
  -- hand.
  have value := restores_expression less before.deeper enough
  have turn := restores_statement less before.deeper.turn enough
  have body := restores_statement less before.deeper enough
  refine .kind fun found => ?_
  cases found with
  | leftBrace =>
    refine .skip .advance ?_
    refine .openScope fun scope => ?_
    refine Tallies.next (.steady Reading.steady.declarations) fun _ => ?_
    -- The statements of a block are in the scope that has just been opened.
    have inner := restores_statement less (before.deeper.inside scope) enough
    refine (Tallies.many _ inner).next fun body => ?_
    exact .closeScope fun closed => .skip (.expect _) (.pure _)
  | breakWord =>
    refine .skip .advance (.get fun reader here => ?_)
    exact Tallies.next (.steady (.check _)) fun leave => .skip (.expect _) (.pure _)
  | returnWord =>
    refine .skip .advance (value.next fun result => .get fun reader here => ?_)
    exact Tallies.next (.steady (.check _)) fun leave => .skip (.expect _) (.pure _)
  | whileWord =>
    refine .skip .advance ((restores_condition enough).next fun test => ?_)
    exact (Tallies.insideLoop turn).next fun body => .pure _
  | forWord =>
    refine .skip .advance (.skip (.expect _) ?_)
    refine (restores_assignment enough).next fun init => .skip (.expect _) ?_
    refine value.next fun value => Tallies.next (.steady (.check _)) fun test => ?_
    refine .skip (.expect _) ((restores_assignment enough).next fun increment => ?_)
    exact .skip (.expect _) ((Tallies.insideLoop turn).next fun body => .pure _)
  | ifWord =>
    refine .skip .advance ((restores_condition enough).next fun test => ?_)
    refine body.next fun taken => .kind fun follows => ?_
    split
    · exact .skip .advance (body.next fun otherwise => .pure _)
    · exact .pure _
  | _ => exact (restores_assignment enough).next fun done => .skip (.expect _) (.pure _)

end Statements

end Counted

end SmallC
