import Mathlib
import SmallC.Compile
import SmallC.Proofs.Nesting.Heights
import SmallC.Proofs.Typing.Reading

/-! The limit of nesting bounds the trees that are handed on, by the square of it and not in line
with it: the levels that a chain of operators takes are given back where the chain ends. -/

namespace SmallC

namespace Reading

variable {α β : Type}

/-- What is read is good, and the limit of nesting stays as it is. -/
def Gives (action : Reading α) (good : α → Prop) : Prop :=
  ∀ reader value next, action reader = .ok value next → good value ∧ next.limit = reader.limit

variable {good : α → Prop} {well : β → Prop}

theorem Gives.pure {value : α} (holds : good value) : Gives (Pure.pure value) good := by
  intro reader result next done
  obtain ⟨rfl, rfl⟩ := pure_ok done
  exact ⟨holds, rfl⟩

theorem Gives.bind {action : Reading α} {next : α → Reading β} (first : Gives action good)
    (second : ∀ value, good value → Gives (next value) well) : Gives (action >>= next) well := by
  intro reader value final done
  obtain ⟨middle, state, begun, ended⟩ := bind_ok done
  obtain ⟨holds, kept⟩ := first _ _ _ begun
  obtain ⟨result, still⟩ := second middle holds _ _ _ ended
  exact ⟨result, still.trans kept⟩

theorem Gives.weaken {action : Reading α} {weaker : α → Prop} (gives : Gives action good)
    (implies : ∀ value, good value → weaker value) : Gives action weaker := by
  intro reader value next done
  obtain ⟨holds, kept⟩ := gives reader value next done
  exact ⟨implies _ holds, kept⟩

/-- A step whose value does not matter may come first. -/
theorem Gives.skip {action : Reading α} {next : α → Reading β} (first : Gives action fun _ => True)
    (second : ∀ value, Gives (next value) well) : Gives (action >>= next) well :=
  first.bind fun value _ => second value

theorem Gives.discard {action : Reading α} (gives : Gives action good) :
    Gives (Functor.discard action) fun _ => True := by
  intro reader value next done
  obtain ⟨result, done⟩ := discard_ok done
  exact ⟨trivial, (gives _ _ _ done).2⟩

theorem Gives.get : Gives (MonadState.get : Reading Reader) fun _ => True := by
  intro reader value next done
  cases done
  exact ⟨trivial, rfl⟩

theorem Gives.fail (failure : Failure) : Gives (throw failure : Reading α) good := by
  intro reader value next done
  cases done

theorem Gives.act {action : Checker → α × Checker} (holds : ∀ checker, good (action checker).1) :
    Gives (Reading.act action) good := by
  intro reader value next done
  cases done
  exact ⟨holds _, rfl⟩

theorem Gives.acted (action : Checker → α × Checker) : Gives (Reading.act action) fun _ => True :=
  .act fun _ => trivial

/-- The node of a verdict is kept whatever the verdict is. -/
theorem Gives.check {verdict : Verdict α} (holds : good verdict.node) :
    Gives (Reading.check verdict) good :=
  .act fun _ => holds

theorem Gives.kind : Gives Reading.kind fun _ => True :=
  Gives.get.skip fun _ => .pure trivial

theorem Gives.advance : Gives Reading.advance fun _ => True := by
  intro reader value next done
  cases done
  exact ⟨trivial, rfl⟩

theorem Gives.unexpected : Gives (Reading.unexpected : Reading α) good :=
  Gives.get.skip fun _ => .fail _

theorem Gives.tooDeep : Gives (Reading.tooDeep : Reading α) good :=
  Gives.get.skip fun _ => .fail _

theorem Gives.expect (wanted : TokenKind) : Gives (Reading.expect wanted) fun _ => True := by
  refine Gives.kind.skip fun found => ?_
  split
  · exact .advance
  · exact .unexpected

/-- Items that are good one by one are good together. -/
theorem Gives.whileAt (test : TokenKind → Bool) {item : Reading α} (each : Gives item good)
    (clock : List Token) :
    Gives (Reading.whileAt test item clock) fun values => ∀ value ∈ values, good value := by
  -- The clock runs out only where an item would be needed, and there reading fails.
  induction clock with
  | nil =>
    refine Gives.kind.skip fun found => ?_
    split
    · exact .unexpected
    · exact .pure (by simp)
  | cons _ clock ih =>
    refine Gives.kind.skip fun found => ?_
    split
    · refine each.bind fun first holds => ih.bind fun others all => .pure ?_
      simpa using And.intro holds all
    · exact .pure (by simp)

theorem Gives.many (test : TokenKind → Bool) {item : Reading α} (each : Gives item good) :
    Gives (Reading.many test item) fun values => ∀ value ∈ values, good value :=
  Gives.get.skip fun _ => .whileAt test each _

theorem Gives.commaSeparated {item : Reading α} (each : Gives item good) :
    Gives (Reading.commaSeparated item) fun values => ∀ value ∈ values, good value := by
  refine each.bind fun first holds => ?_
  refine (Gives.many _ (Gives.advance.discard.skip fun _ => each)).bind fun others all => ?_
  refine .pure ?_
  simpa using And.intro holds all

theorem Gives.insideLoop {body : Reading α} (gives : Gives body good) :
    Gives (Reading.insideLoop body) good := by
  intro reader value next done
  unfold Reading.insideLoop at done
  -- The count of loops is neither part of the value nor of the limit.
  cases read : body { reader with checker := reader.checker.enterLoop } with
  | error failure state => simp [read] at done
  | ok result state =>
    rw [read] at done
    cases done
    obtain ⟨holds, kept⟩ := gives _ _ _ read
    exact ⟨holds, kept⟩

/-! Declarations read no trees; of them only the limit matters. -/

theorem Gives.name : Gives Reading.name fun _ => True :=
  (Gives.expect _).skip fun _ => .pure trivial

theorem Gives.wholeNumber : Gives Reading.wholeNumber fun _ => True := by
  refine (Gives.expect _).skip fun token => ?_
  split
  · exact .pure trivial
  · exact .fail _

theorem Gives.specifier : Gives Reading.specifier fun _ => True := by
  refine Gives.kind.skip fun found => ?_
  split
  · exact Gives.advance.discard.skip fun _ => .pure trivial
  · exact .unexpected

theorem Gives.stars : Gives Reading.stars fun _ => True :=
  (Gives.many _ .advance).bind fun _ _ => .pure trivial

theorem Gives.arrayLength : Gives Reading.arrayLength fun _ => True := by
  refine Gives.get.skip fun reader => Gives.wholeNumber.skip fun length => ?_
  split
  · exact .fail _
  · exact .pure trivial

theorem Gives.variableType (specifier : Specifier) (indirection : Nat) (name : String) :
    Gives (Reading.variableType specifier indirection name) fun _ => True := by
  refine Gives.kind.skip fun found => ?_
  split
  · refine (Gives.expect _).discard.skip fun _ => Gives.get.skip fun _ =>
      Gives.arrayLength.skip fun _ => (Gives.expect _).discard.skip fun _ => ?_
    split
    · exact .pure trivial
    · exact .fail _
  · exact .pure trivial

theorem Gives.declareObject (specifier : Specifier) (indirection : Nat) (name : String) :
    Gives (Reading.declareObject specifier indirection name) fun _ => True :=
  (Gives.variableType _ _ _).skip fun _ => (Gives.acted _).discard

theorem Gives.declarations : Gives Reading.declarations fun _ => True := by
  have declarator (specifier : Specifier) : Gives (declarator specifier) fun _ => True :=
    Gives.stars.skip fun _ => Gives.name.skip fun _ => .declareObject _ _ _
  have declaration : Gives declaration fun _ => True :=
    Gives.specifier.skip fun specifier => (Gives.commaSeparated (declarator specifier)).discard.skip
      fun _ => (Gives.expect _).discard
  exact (Gives.many _ declaration).discard

theorem Gives.typeName : Gives Reading.typeName fun _ => True :=
  (Gives.expect _).discard.skip fun _ => Gives.specifier.skip fun _ => Gives.stars.skip fun _ =>
    (Gives.expect _).discard.skip fun _ => .pure trivial

theorem Gives.startsTypeName : Gives Reading.startsTypeName fun _ => True :=
  Gives.get.skip fun _ => .pure trivial

/-! Expressions: a binary operator adds two nodes and a subscript three, and each of the six
precedences may take all the levels that are left, as may the suffixes. -/

/-- What is read is an expression of at most the given height. -/
abbrev Stays (action : Reading Expression) (bound : Nat) : Prop :=
  Gives action fun expression => expression.height ≤ bound

theorem stays_check {verdict : Verdict Expression} {bound : Nat}
    (low : verdict.node.height ≤ bound) : Stays (check verdict) bound :=
  .check low

theorem height_rule {tier : Tier} {kind : TokenKind}
    {rule : Expression → Expression → Verdict Expression} (found : tier.rule? kind = some rule)
    {left right : Expression} {bound : Nat} (first : left.height ≤ bound)
    (second : right.height ≤ bound) : (rule left right).node.height ≤ bound + 2 := by
  -- Each operator judges operands that are extended or promoted.
  unfold Tier.rule? at found
  split at found <;> cases found
  all_goals first
    | exact height_judgeExtended _ _ _ first second
    | exact height_judgePromoted _ _ _ first second

theorem stays_call {symbol : SymbolId} {arguments : List Expression} {bound : Nat}
    (each : ∀ argument ∈ arguments, argument.height ≤ bound) :
    Stays (act (Checker.call symbol arguments)) (bound + 2) :=
  .act fun checker => height_checkCall symbol (checker.symbols.typeOf symbol) each

/-- A unary operator puts at most two nodes above its operand. -/
theorem stays_unary {operand : Reading Expression} {bound : Nat} (low : Stays operand bound)
    {judge : Expression → Verdict Expression}
    (raises : ∀ operand, operand.height ≤ bound → (judge operand).node.height ≤ bound + 2) :
    Stays (do Functor.discard advance; check (judge (← operand))) (bound + 2) :=
  Gives.advance.discard.skip fun _ => low.bind fun value inside => .check (raises value inside)

/-- A step raises its operand by two, and what follows starts from there. -/
theorem stays_stepped {operand : Expression} {bound levels : Nat} (op : StepOp)
    (low : operand.height ≤ bound) (further : ∀ {stepped : Expression}, stepped.height ≤ bound + 2 →
      Stays (furtherSuffixes stepped levels) (bound + 2 + 3 * levels)) :
    Stays (do
      let stepped ← check (checkStep op operand)
      Functor.discard advance
      furtherSuffixes stepped levels) (bound + 3 * (levels + 1)) := by
  refine (stays_check (height_checkStep op low)).bind fun stepped raised => ?_
  exact Gives.advance.discard.skip fun _ => (further raised).weaken fun _ stays => by omega

/-- How high operands joined by operators of so many precedences may stand. -/
def room (tiers : Nat) : (levels : Nat) → Nat
  -- Without a level nothing is read.
  | 0 => 0
  | levels + 1 => 4 * levels ^ 2 + 4 * levels + 4 + 2 * (tiers * (levels + 1))

/-- More levels leave more room. -/
theorem room_mono (tiers levels : Nat) : room tiers levels ≤ room tiers (levels + 1) := by
  cases levels with
  | zero => exact Nat.zero_le _
  | succ levels =>
    simp only [room]
    nlinarith

/-- A further precedence may take every level once. -/
theorem room_tier (tiers levels : Nat) : room tiers levels + 2 * levels = room (tiers + 1) levels := by
  cases levels with
  | zero => rfl
  | succ levels =>
    simp only [room]
    ring

mutual

theorem stays_expression : (levels : Nat) → Stays (expression levels) (4 * levels ^ 2)
  | 0 => by
    unfold expression
    exact .tooDeep
  | levels + 1 => by
    unfold expression
    refine (stays_operation Tier.all levels).weaken fun operand low => ?_
    -- Six chains of operators stand one on the other.
    have six : Tier.all.length = 6 := rfl
    rw [six] at low
    cases levels with
    | zero => exact low.trans (Nat.zero_le _)
    | succ levels =>
      simp only [room] at low
      nlinarith
termination_by levels => (levels, 0)

theorem stays_operation : (tiers : List Tier) → (levels : Nat) →
    Stays (operation tiers levels) (room tiers.length levels)
  | [], levels => by
    unfold operation
    exact stays_prefixed levels
  | tier :: tighter, levels => by
    unfold operation
    refine (stays_operation tighter levels).bind fun left low => ?_
    -- A chain of this precedence may take every level that is left.
    rw [List.length_cons, ← room_tier]
    exact stays_furtherOperands tier tighter levels low (Nat.le_refl _)
termination_by tiers levels => (levels, tiers.length + 4)

/-- Every operator of a chain raises what stands on its left by two. -/
theorem stays_furtherOperands (tier : Tier) (tighter : List Tier) {left : Expression}
    {bound : Nat} (levels : Nat) (low : left.height ≤ bound)
    (enough : room tighter.length levels ≤ bound) :
    Stays (furtherOperands tier tighter left levels) (bound + 2 * levels) := by
  unfold furtherOperands
  refine Gives.kind.skip fun found => ?_
  cases ruled : tier.rule? found with
  | none => exact .pure (by omega)
  | some rule =>
    match levels with
    | 0 => exact .tooDeep
    | levels + 1 =>
      -- The right operand has one level less, and so has the rest of the chain.
      have fits := (room_mono tighter.length levels).trans enough
      refine Gives.advance.discard.skip fun _ => ?_
      refine (stays_operation tighter levels).bind fun right second => ?_
      refine (stays_check (height_rule ruled low (second.trans fits))).bind fun joined raised => ?_
      have longer := stays_furtherOperands tier tighter levels raised (by omega)
      exact longer.weaken fun _ stays => by omega
termination_by (levels, 0)

theorem stays_prefixed : (levels : Nat) → Stays (prefixed levels) (room 0 levels)
  | 0 => by
    unfold prefixed
    exact .tooDeep
  | levels + 1 => by
    -- Above an operand with one level less stand the operator and perhaps a conversion.
    have below := stays_prefixed levels
    have higher : room 0 levels + 2 ≤ room 0 (levels + 1) := by
      cases levels with
      | zero => simp [room]
      | succ levels =>
        simp only [room]
        nlinarith
    have suffixed : Stays (suffixed levels) (room 0 (levels + 1)) := by
      refine (stays_suffixed levels).weaken fun operand low => ?_
      simp only [room]
      omega
    have raise {judge : Expression → Verdict Expression}
        (raises : ∀ operand, operand.height ≤ room 0 levels →
          (judge operand).node.height ≤ room 0 levels + 2) :
        Stays (do Functor.discard advance; check (judge (← prefixed levels)))
          (room 0 (levels + 1)) :=
      (stays_unary below raises).weaken fun operand low => low.trans higher
    unfold prefixed
    refine Gives.startsTypeName.skip fun typed => Gives.kind.skip fun found => ?_
    cases found with
    | bang => exact raise fun operand low => height_checkUnary _ _ _ low
    | minus => exact raise fun operand low => height_checkUnary _ _ _ low
    | star => exact raise fun operand low => height_checkUnary _ _ _ low
    | ampersand => exact raise fun operand low => height_checkAddress low
    | sizeofWord =>
      refine Gives.advance.discard.skip fun _ => Gives.startsTypeName.skip fun named => ?_
      have single (type : Ty) : (sizeofType type).height ≤ room 0 (levels + 1) := by
        simp only [height_sizeofType, room]
        omega
      split
      · exact Gives.typeName.skip fun type => .pure (single type)
      · exact below.bind fun operand _ => .check (single operand.type)
    | leftParen =>
      dsimp only
      split
      · refine Gives.typeName.skip fun target => below.bind fun operand low => .check ?_
        exact (height_checkCast target low).trans higher
      · exact suffixed
    | _ => exact suffixed
termination_by levels => (levels, 3)

theorem stays_suffixed (levels : Nat) :
    Stays (suffixed levels) (4 * levels ^ 2 + 2 + 3 * levels) := by
  unfold suffixed
  exact (stays_primary levels).bind fun operand low =>
    stays_furtherSuffixes levels low (by omega)
termination_by (levels, 2)

/-- Every suffix raises what stands before it by at most three. -/
theorem stays_furtherSuffixes {operand : Expression} {bound : Nat} (levels : Nat)
    (low : operand.height ≤ bound) (enough : 4 * levels ^ 2 ≤ bound) :
    Stays (furtherSuffixes operand levels) (bound + 3 * levels) := by
  -- The square that an index may reach shrinks with the levels, so it stays below the bound.
  have fewer (levels : Nat) : levels ^ 2 ≤ (levels + 1) ^ 2 := Nat.pow_le_pow_left (by omega) 2
  unfold furtherSuffixes
  refine Gives.kind.skip fun found => ?_
  cases found with
  | leftBracket =>
    match levels with
    | 0 => exact .tooDeep
    | levels + 1 =>
      have one := fewer levels
      have fits : 4 * levels ^ 2 ≤ bound := by omega
      refine Gives.advance.discard.skip fun _ => ?_
      refine (stays_expression levels).bind fun index second => ?_
      refine (stays_check (height_checkSubscript low (second.trans fits))).bind fun element raised => ?_
      refine (Gives.expect _).discard.skip fun _ => ?_
      have longer := stays_furtherSuffixes levels raised (by omega)
      exact longer.weaken fun _ stays => by omega
  | increment =>
    match levels with
    | 0 => exact .tooDeep
    | levels + 1 =>
      have one := fewer levels
      exact stays_stepped .increment low fun raised => stays_furtherSuffixes levels raised (by omega)
  | decrement =>
    match levels with
    | 0 => exact .tooDeep
    | levels + 1 =>
      have one := fewer levels
      exact stays_stepped .decrement low fun raised => stays_furtherSuffixes levels raised (by omega)
  | _ => exact .pure (by omega)
termination_by (levels, 0)

theorem stays_primary (levels : Nat) : Stays (primary levels) (4 * levels ^ 2 + 2) := by
  unfold primary
  refine Gives.kind.skip fun found => ?_
  cases found with
  | leftParen =>
    refine Gives.advance.discard.skip fun _ => (stays_expression levels).bind fun inner low => ?_
    exact (Gives.expect _).discard.skip fun _ => .pure (by omega)
  | character =>
    exact Gives.advance.skip fun token => .pure (by simp [Expression.int, Expression.height])
  | string => exact Gives.advance.skip fun token => .pure (by simp [Expression.height])
  | integer =>
    exact Gives.wholeNumber.skip fun value => .pure (by simp [Expression.int, Expression.height])
  | real => exact Gives.advance.skip fun token => .pure (by simp [Expression.height])
  | identifier =>
    refine Gives.name.skip fun name => (Gives.acted _).skip fun symbol => ?_
    refine Gives.kind.skip fun follows => ?_
    split
    · refine Gives.advance.discard.skip fun _ => ?_
      -- Each argument is an expression of a level less, and the call stands above all of them.
      have arguments : Gives (callArguments (expression levels)) fun arguments =>
          ∀ argument ∈ arguments, argument.height ≤ 4 * levels ^ 2 := by
        refine Gives.kind.skip fun next => ?_
        split
        · exact .pure (by simp)
        · exact .commaSeparated (stays_expression levels)
      refine arguments.bind fun arguments each => (stays_call each).bind fun call low => ?_
      exact (Gives.expect _).discard.skip fun _ => .pure low
    · exact Gives.get.skip fun reader => .pure (by simp [Checker.identifier, Expression.height])
  | _ => exact .unexpected
termination_by (levels, 1)

end

/-! Statements: each takes a level and adds one node to what it is made of. -/

/-- What is read is a statement of at most the given height. -/
abbrev StaysBelow (action : Reading Statement) (bound : Nat) : Prop :=
  Gives action fun statement => statement.height ≤ bound

theorem stays_assignment (levels : Nat) :
    StaysBelow (assignment levels) (4 * levels ^ 2 + 2) := by
  refine (stays_expression levels).bind fun left first => Gives.kind.skip fun found => ?_
  split
  · refine Gives.advance.discard.skip fun _ => (stays_expression levels).bind fun right second => ?_
    exact .check (height_checkAssign first second)
  · refine .pure ?_
    simp only [Statement.height]
    omega

theorem stays_checkTest {value : Expression} {bound : Nat} (low : value.height ≤ bound) :
    Stays (check (checkTest value)) (bound + 1) :=
  .check (height_checkTest low)

theorem stays_condition (levels : Nat) : Stays (condition levels) (4 * levels ^ 2 + 1) := by
  refine (Gives.expect _).discard.skip fun _ => (stays_expression levels).bind fun value low => ?_
  refine (stays_checkTest low).bind fun test raised => ?_
  exact (Gives.expect _).discard.skip fun _ => .pure raised

theorem stays_statement : (levels : Nat) → StaysBelow (statement levels) (4 * levels ^ 2)
  | 0 => by
    unfold statement
    exact .tooDeep
  | levels + 1 => by
    have body := stays_statement levels
    have square : (levels + 1) ^ 2 = levels ^ 2 + 2 * levels + 1 := by ring
    unfold statement
    refine Gives.kind.skip fun found => ?_
    -- A statement stands at most two nodes above its highest part, and a level is worth four.
    cases found with
    | leftBrace =>
      refine Gives.advance.discard.skip fun _ => (Gives.acted _).skip fun scope =>
        Gives.declarations.skip fun _ => (Gives.many _ body).bind fun statements each =>
          (Gives.acted _).discard.skip fun _ => (Gives.expect _).discard.skip fun _ => .pure ?_
      have all := Statement.heightOfList_le each
      simp only [Statement.height]
      omega
    | breakWord =>
      have leave (loops : Nat) : StaysBelow (check (checkBreak loops)) 1 := .check (Nat.le_refl _)
      refine Gives.advance.discard.skip fun _ => Gives.get.skip fun _ =>
        (leave _).bind fun statement low => (Gives.expect _).discard.skip fun _ => .pure ?_
      omega
    | returnWord =>
      have leave (returned : Ty) {value : Expression} (low : value.height ≤ 4 * levels ^ 2) :
          StaysBelow (check (checkReturn returned value)) (4 * levels ^ 2 + 2) :=
        .check (height_checkReturn returned low)
      refine Gives.advance.discard.skip fun _ => (stays_expression levels).bind fun value low =>
        Gives.get.skip fun _ => (leave _ low).bind fun statement raised =>
          (Gives.expect _).discard.skip fun _ => .pure ?_
      omega
    | whileWord =>
      refine Gives.advance.discard.skip fun _ => (stays_condition levels).bind fun test tested =>
        body.insideLoop.bind fun turn low => .pure ?_
      simp only [Statement.height]
      omega
    | forWord =>
      refine Gives.advance.discard.skip fun _ => (Gives.expect _).discard.skip fun _ =>
        (stays_assignment levels).bind fun init started => (Gives.expect _).discard.skip fun _ =>
        (stays_expression levels).bind fun value valued => (stays_checkTest valued).bind fun test tested =>
        (Gives.expect _).discard.skip fun _ => (stays_assignment levels).bind fun increment stepped =>
        (Gives.expect _).discard.skip fun _ => body.insideLoop.bind fun turn low => .pure ?_
      simp only [Statement.height]
      omega
    | ifWord =>
      refine Gives.advance.discard.skip fun _ => (stays_condition levels).bind fun test tested =>
        body.bind fun taken low => Gives.kind.skip fun follows => ?_
      split
      · refine Gives.advance.discard.skip fun _ => body.bind fun other lower => .pure ?_
        simp only [Statement.height]
        omega
      · refine .pure ?_
        simp only [Statement.height]
        omega
    | _ =>
      refine (stays_assignment levels).bind fun done low =>
        (Gives.expect _).discard.skip fun _ => .pure ?_
      omega

/-! Units: bodies are read at the limit itself. -/

theorem Gives.parameter : Gives Reading.parameter fun _ => True :=
  Gives.specifier.skip fun _ => Gives.stars.skip fun _ => Gives.name.skip fun _ =>
    (Gives.acted _).discard.skip fun _ => .pure trivial

theorem Gives.furtherParameters (clock : List Token) :
    Gives (Reading.furtherParameters clock) fun _ => True := by
  induction clock with
  | nil =>
    refine Gives.kind.skip fun found => ?_
    split
    · exact .unexpected
    · exact .pure trivial
  | cons _ clock ih =>
    refine Gives.kind.skip fun found => ?_
    split
    · refine Gives.advance.discard.skip fun _ => Gives.kind.skip fun next => ?_
      split
      · exact Gives.advance.discard.skip fun _ => .pure trivial
      · exact Gives.parameter.skip fun _ => ih.skip fun _ => .pure trivial
    · exact .pure trivial

theorem Gives.signature (specifier : Specifier) (indirection : Nat) :
    Gives (Reading.signature specifier indirection) fun _ => True := by
  refine (Gives.acted _).skip fun scope => Gives.skip ?_ fun parameters => .pure trivial
  refine Gives.kind.skip fun found => ?_
  split
  · exact Gives.advance.discard.skip fun _ => .pure trivial
  · exact Gives.parameter.skip fun _ => Gives.get.skip fun _ =>
      (Gives.furtherParameters _).skip fun _ => .pure trivial

theorem Gives.declarePrototype (name : String) (type : Ty) :
    Gives (Reading.declarePrototype name type) fun _ => True :=
  (Gives.acted _).skip fun _ => (Gives.acted _).discard

theorem Gives.furtherDeclarators (specifier : Specifier) :
    Gives (Reading.furtherDeclarators specifier) fun _ => True := by
  -- Types and symbols are all that declarators come to, and neither has a height.
  have declarator : Gives (globalDeclarator specifier) fun _ => True := by
    refine Gives.stars.skip fun _ => Gives.name.skip fun _ => Gives.kind.skip fun found => ?_
    split
    · exact Gives.advance.discard.skip fun _ => (Gives.signature _ _).skip fun _ =>
        (Gives.declarePrototype _ _).skip fun _ => (Gives.expect _).discard
    · exact .declareObject _ _ _
  exact (Gives.many _ (Gives.advance.discard.skip fun _ => declarator)).discard.skip fun _ =>
    (Gives.expect _).discard

theorem functionBody_height {name : String} {type : Ty} {scope : ScopeId} {reader next : Reader}
    {function : Function} (done : functionBody name type scope reader = .ok function next) :
    (∀ statement ∈ function.body, statement.height ≤ 4 * reader.limit ^ 2) ∧
      next.limit = reader.limit := by
  obtain ⟨_, _, got, done⟩ := bind_ok done
  cases got
  -- The limit that is looked up at the start is the one the statements are read at.
  have rest {parameters : Nat} : Gives (do
      let symbol ← act (Checker.defineFunction name type)
      Functor.discard (expect .leftBrace)
      declarations
      let body ← many (· ≠ .rightBrace) (statement reader.limit)
      let scope ← act Checker.closeScope
      Functor.discard (expect .rightBrace)
      return ({ symbol, parameters, scope, body } : Function)) fun function =>
        ∀ statement ∈ function.body, statement.height ≤ 4 * reader.limit ^ 2 :=
    (Gives.acted _).skip fun symbol => (Gives.expect _).discard.skip fun _ =>
      Gives.declarations.skip fun _ => (Gives.many _ (stays_statement reader.limit)).bind
        fun body each => (Gives.acted _).skip fun scope => (Gives.expect _).discard.skip fun _ => .pure each
  cases returned : type.specifier? with
  | none =>
    simp only [returned] at done
    exact rest _ _ _ done
  | some specifier =>
    simp only [returned] at done
    obtain ⟨_, _, begun, done⟩ := bind_ok done
    cases begun
    obtain ⟨low, kept⟩ := rest _ _ _ done
    exact ⟨low, kept⟩

theorem topLevel_height {reader next : Reader} {read : Option Function}
    (done : topLevel reader = .ok read next) :
    (∀ function, read = some function →
      ∀ statement ∈ function.body, statement.height ≤ 4 * reader.limit ^ 2) ∧
      next.limit = reader.limit := by
  have nothing (specifier : Specifier) :
      Gives (do furtherDeclarators specifier; return none : Reading (Option Function))
        fun read => read = none :=
    (Gives.furtherDeclarators specifier).skip fun _ => .pure rfl
  -- No step on the way to the body changes the limit, so it is followed through all of them.
  obtain ⟨specifier, afterSpecifier, started, done⟩ := bind_ok done
  obtain ⟨indirection, afterStars, counted, done⟩ := bind_ok done
  obtain ⟨name, afterName, spelled, done⟩ := bind_ok done
  obtain ⟨found, afterKind, looked, done⟩ := bind_ok done
  have kept := (Gives.kind _ _ _ looked).2.trans ((Gives.name _ _ _ spelled).2.trans
    ((Gives.stars _ _ _ counted).2.trans (Gives.specifier _ _ _ started).2))
  dsimp only at done
  split at done
  · obtain ⟨_, inside, entered, done⟩ := bind_ok done
    obtain ⟨⟨type, scope⟩, afterList, listed, done⟩ := bind_ok done
    obtain ⟨_, afterParen, closed, done⟩ := bind_ok done
    obtain ⟨follows, afterFollows, looked, done⟩ := bind_ok done
    have kept := (Gives.kind _ _ _ looked).2.trans (((Gives.expect _).discard _ _ _ closed).2.trans
      ((Gives.signature _ _ _ _ _ listed).2.trans
        ((Gives.advance.discard _ _ _ entered).2.trans kept)))
    split at done
    · obtain ⟨function, ended, body, done⟩ := bind_ok done
      obtain ⟨rfl, rfl⟩ := pure_ok done
      obtain ⟨low, still⟩ := functionBody_height body
      refine ⟨?_, still.trans kept⟩
      rintro _ ⟨⟩
      rwa [kept] at low
    · obtain ⟨_, declared, prototype, done⟩ := bind_ok done
      obtain ⟨rfl, still⟩ := nothing specifier _ _ _ done
      exact ⟨by simp, still.trans ((Gives.declarePrototype _ _ _ _ _ prototype).2.trans kept)⟩
  · obtain ⟨_, declared, object, done⟩ := bind_ok done
    obtain ⟨rfl, still⟩ := nothing specifier _ _ _ done
    exact ⟨by simp, still.trans ((Gives.declareObject _ _ _ _ _ _ object).2.trans kept)⟩

end Reading

/-- Note every function that is handed on, in order. -/
def listing {σ : Type} (consume : Consumer σ) : Consumer (σ × List Function) :=
  fun function symbols output =>
    let consumed := consume function symbols output.1
    (consumed.1, consumed.2, output.2 ++ [function])

/-- Every statement that is handed on, to whatever consumer, stands no higher than four times the
square of the limit. -/
theorem readUnit_height {σ : Type} (consume : Consumer σ) (tokens : List Token) (limit : Nat)
    (output : σ) :
    ∀ function ∈ (readUnit (listing consume) tokens limit (output, [])).output.2,
      ∀ statement ∈ function.body, statement.height ≤ 4 * limit ^ 2 := by
  -- The functions so far are low, and the reader keeps the limit.
  have declarations (clock : List Token) (reader : Reader) (output : σ × List Function)
      (kept : reader.limit = limit)
      (low : ∀ function ∈ output.2, ∀ statement ∈ function.body, statement.height ≤ 4 * limit ^ 2) :
      ∀ function ∈ (readDeclarations (listing consume) clock reader output).output.2,
        ∀ statement ∈ function.body, statement.height ≤ 4 * limit ^ 2 := by
    induction clock generalizing reader output with
    | nil =>
      simp only [readDeclarations]
      split <;> exact low
    | cons token clock ih =>
      simp only [readDeclarations]
      split
      · exact low
      · cases read : Reading.topLevel reader with
        | error failure stopped => exact low
        | ok result next =>
          obtain ⟨bounded, still⟩ := Reading.topLevel_height read
          rw [kept] at bounded still
          cases result with
          | none => exact ih _ _ still low
          | some function =>
            refine ih _ _ still ?_
            intro other member
            rcases List.mem_append.mp member with before | here
            · exact low other before
            · rw [List.mem_singleton.mp here]
              exact bounded function rfl
  exact declarations _ _ _ rfl (by simp)

/-- Do nothing with the functions of a unit. -/
def ignoring : Consumer Unit := fun _ symbols _ => (symbols, ())

/-- The tokens of a function that returns what it is given. -/
def echoTokens : List Token :=
  [(.specifier .int, "int"), (.identifier, "echo"), (.leftParen, "("), (.specifier .int, "int"),
    (.identifier, "given"), (.rightParen, ")"), (.leftBrace, "\x7b"), (.returnWord, "return"),
    (.identifier, "given"), (.semicolon, ";"), (.rightBrace, "\x7d"), (.done, "")].map
      fun piece => ⟨piece.1, piece.2, .start⟩

/-- The function that returns what it is given is handed on with its only statement. -/
theorem readUnit_height_echo :
    ∃ function ∈ (readUnit (listing ignoring) echoTokens 3 ((), [])).output.2,
      ∃ statement ∈ function.body, statement.height ≤ 4 * 3 ^ 2 := by
  have handed : (readUnit (listing ignoring) echoTokens 3 ((), [])).output.2.any
      (fun function => !function.body.isEmpty) = true := by cbv
  obtain ⟨function, member, filled⟩ := List.any_eq_true.mp handed
  obtain ⟨statement, inside⟩ := List.isEmpty_eq_false_iff_exists_mem.mp (by simpa using filled)
  exact ⟨function, member, statement, inside,
    readUnit_height ignoring echoTokens 3 () function member statement inside⟩

/-- One statement with chains of all six precedences on the left of one another, and again inside
parentheses on the left of them all. -/
def steepSource : String :=
  "int f(int x) { (x*x*x+x<x==x&&x||x)*x*x*x*x+x+x+x+x<x<x<x<x==x==x==x==x&&x&&x&&x&&x||x||x||x||x; }"

set_option maxRecDepth 10000 in
/-- The statement is read at seven levels, and has more nodes on a path than four for each level
and four more: every chain starts again from the levels that the chain before it has given back. -/
theorem steepSource_height :
    ∃ tokens, tokensOf steepSource = .ok tokens ∧
      (readUnit (listing ignoring) tokens 7 ((), [])).failure? = none ∧
      ∃ function ∈ (readUnit (listing ignoring) tokens 7 ((), [])).output.2,
        ∃ statement ∈ function.body, 4 * (7 + 1) < statement.height := by
  have measured :
      (match tokensOf steepSource with
        | .error _ => false
        | .ok tokens =>
          let outcome := readUnit (listing ignoring) tokens 7 ((), [])
          outcome.failure?.isNone && outcome.output.2.any fun function =>
            function.body.any fun statement => decide (4 * (7 + 1) < statement.height)) = true := by
    cbv
  cases lexed : tokensOf steepSource with
  | error failure => simp [lexed] at measured
  | ok tokens =>
    simp only [lexed, Bool.and_eq_true, Option.isNone_iff_eq_none, List.any_eq_true,
      decide_eq_true_eq] at measured
    exact ⟨tokens, rfl, measured⟩

end SmallC
