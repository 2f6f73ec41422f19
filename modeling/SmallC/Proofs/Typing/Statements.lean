import SmallC.Grammar.Statements
import SmallC.Proofs.Typing.Expressions

/-! Every statement that is read in silence is typed, in the loops and scopes it stands in. -/

namespace SmallC

/-- The condition is typed and testable, unless something has been reported. -/
def Checker.Tests (checker : Checker) (test : Expression) : Prop :=
  checker.reports = [] → test.Typed checker.symbols ∧ test.type.Testable

/-- A condition that was typed and testable stays so. -/
theorem Checker.Tests.later {old new : Checker} {test : Expression} (tests : old.Tests test)
    (grows : old.Grows new) : new.Tests test := by
  intro silent
  obtain ⟨typed, testable⟩ := tests (grows.quiet silent)
  exact ⟨typed.weaken grows.keeps, testable⟩

/-- Leaving a loop is accepted only inside of one. -/
theorem Checker.looping_of_checkBreak {checker : Checker}
    (fine : (checkBreak checker.loops).problem? = none) : checker.looping = true := by
  cases count : checker.loops with
  | zero => simp [checkBreak, count] at fine
  | succ more => simp [Checker.looping, count]

namespace Reading

/-- Reading a statement that is typed where it stands if nothing is reported. -/
abbrev Builds (start : Checker) (action : Reading Statement) : Prop :=
  Carries start action fun statement checker => checker.Admits statement

/-- Admission lasts. -/
theorem lasting_admits : Lasting fun statement checker => checker.Admits statement :=
  fun _ _ _ extended admitted => admitted.later extended

variable {start : Checker}

/-- A typed statement may be returned. -/
theorem builds_pure {statement : Statement} (admitted : start.Admits statement) :
    Builds start (pure statement) :=
  .pure lasting_admits admitted

/-- A check that is sound builds a typed statement. -/
theorem builds_check {verdict : Verdict Statement}
    (sound : start.reports = [] → verdict.problem? = none →
      verdict.node.Typed start.symbols start.returned start.looping) :
    Builds start (check verdict) := by
  -- A verdict without a problem is admitted, and recording it changes nothing else.
  refine .act (Checker.extends_record verdict) (fun _ kept => kept.record verdict) ?_
  intro checker here _ silent
  have extended := Checker.extends_record verdict checker
  have admitted : start.Admits verdict.node := fun quiet =>
    sound quiet (Checker.problem_of_record silent)
  exact admitted.later (here.extends.trans extended) silent

/-- Declaring a variable after its name carries the checker on. -/
theorem carries_declareObject (specifier : Specifier) (indirection : Nat) (name : String) :
    Carries start (declareObject specifier indirection name) fun _ _ => True := by
  intro sound reader value next here done
  obtain ⟨type, state, typed, done⟩ := bind_ok done
  -- The type that has been read is proper, so the new symbol is.
  have proper := variableType_ne_error typed
  have beside := here.trans (idle_variableType _ _ _ _ _ _ typed)
  have declares : Carries start (act (Checker.declareVariable name type)) fun _ _ => True :=
    .act (fun checker => Checker.extends_declareVariable checker name type)
      (fun _ kept => kept.declareVariable name proper) fun _ _ _ => trivial
  exact declares.discard sound _ _ _ beside done

/-- A declaration of variables carries the checker on. -/
theorem carries_declaration : Carries start declaration fun _ _ => True := by
  -- Each declarator is read, and an object is declared for it.
  have one (specifier : Specifier) (checker : Checker) :
      Carries checker (declarator specifier) fun _ _ => True :=
    .idle idle_stars fun _ => .idle idle_name fun _ => carries_declareObject _ _ _
  refine .idle idle_specifier fun specifier => ?_
  exact .bind (Carries.commaSeparated (fun _ _ _ _ _ => trivial)
    fun checker _ => one specifier checker).discard fun _ checker _ _ =>
      (idle_expect _).discard.carries

/-- The declarations of a block carry the checker on. -/
theorem carries_declarations : Carries start declarations fun _ _ => True :=
  (Carries.many _ (fun _ _ _ _ _ => trivial) fun _ _ => carries_declaration).discard

/-- An expression or an assignment that is read in silence is typed. -/
theorem builds_assignment (levels : Nat) : Builds start (assignment levels) := by
  -- The left side stays granted while the right one is read.
  refine .bind (yields_expression start levels) fun left checker _ first => ?_
  refine .idle idle_kind fun found => ?_
  split
  · refine .idle idle_advance.discard fun _ => ?_
    refine .bind (yields_expression checker levels) fun right later extended second => ?_
    have place := first.later extended.toGrows
    exact builds_check fun silent => checkAssign_typed (place silent) (second silent)
  · exact builds_pure fun silent => .evaluate (first silent)

/-- A check of a condition yields one that can be tested. -/
theorem carries_checkTest {value : Expression} (granted : start.Grants value) :
    Carries start (check (checkTest value)) fun test checker => checker.Tests test := by
  refine .act (Checker.extends_record _) (fun _ kept => kept.record _) ?_
  intro checker here _ silent
  have extended := here.extends.trans (Checker.extends_record (checkTest value) checker)
  have tests : start.Tests (checkTest value).node := fun quiet =>
    checkTest_typed (granted quiet) (Checker.problem_of_record silent)
  exact tests.later extended.toGrows silent

/-- A condition in parentheses that is read in silence can be tested. -/
theorem carries_condition (levels : Nat) :
    Carries start (condition levels) fun test checker => checker.Tests test := by
  refine .idle (idle_expect _).discard fun _ => ?_
  refine .bind (yields_expression start levels) fun value checker _ granted => ?_
  refine .bind (carries_checkTest granted) fun test later _ tests => ?_
  refine .idle (idle_expect _).discard fun _ => .pure ?_ tests
  exact fun _ _ _ extended tests => tests.later extended.toGrows

/-- The body of a loop that is read in silence is typed as such. -/
theorem carries_turn {body : Reading Statement} (builds : Builds start.enterLoop body) :
    Carries start (insideLoop body) fun statement checker => checker.reports = [] →
      statement.Typed checker.symbols checker.returned true := by
  refine builds.insideLoop ?_
  intro statement checker extended admitted silent
  have typed := admitted silent
  -- Before the loop was left, at least one was open.
  have open_ : checker.looping = true := by
    simp [Checker.looping, extended.loops, Checker.enterLoop]
  rwa [open_] at typed

/-- What happens in a scope of its own that is closed at its end extends the checker outside. -/
theorem extends_scoped {checker read : Checker} (inside : checker.openScope.2.Extends read) :
    checker.Extends read.closeScope.2 := by
  refine ⟨⟨inside.quiet, ?_⟩, ?_, inside.loops, inside.returned⟩
  · exact (SymbolTable.keeps_openScope _).trans
      (inside.keeps.trans (SymbolTable.keeps_closeScope _))
  · show read.symbols.active.tail = checker.symbols.active
    rw [inside.active]
    rfl

/-- A block is read in a scope of its own, which is closed at its end. -/
theorem builds_block {item : Reading Statement} (each : ∀ checker, Builds checker item) :
    Builds start (do
      let scope ← act Checker.openScope
      declarations
      let body ← many (· ≠ .rightBrace) item
      discard (act Checker.closeScope)
      discard (expect .rightBrace)
      return .block scope body) := by
  intro sound reader value next here done
  obtain ⟨scope, opened, begun, done⟩ := bind_ok done
  obtain ⟨-, opening⟩ := act_ok begun
  obtain ⟨_, declared, locals, done⟩ := bind_ok done
  obtain ⟨body, read, statements, done⟩ := bind_ok done
  obtain ⟨_, closed, ending, done⟩ := bind_ok done
  obtain ⟨_, ending⟩ := discard_ok ending
  obtain ⟨-, closing⟩ := act_ok ending
  obtain ⟨_, last, brace, done⟩ := bind_ok done
  have after := (idle_expect _).discard _ _ _ brace
  obtain ⟨rfl, rfl⟩ := pure_ok done
  -- Between opening and closing the scope the checker is extended step by step.
  have inner : opened.checker.Sound := opening ▸ (here.sound sound).openScope
  obtain ⟨early, settled, -⟩ := carries_declarations inner _ _ _ (.refl _) locals
  obtain ⟨late, kept, all⟩ := Carries.many _ lasting_admits (fun checker _ => each checker) settled
    _ _ _ (.refl _) statements
  have inside := early.trans late
  rw [opening] at inside
  have whole : reader.checker.Extends closed.checker := closing ▸ extends_scoped inside
  have closedSound : closed.checker.Sound := closing ▸ kept.closeScope
  refine ⟨here.extends.trans (whole.trans after.extends), after.sound closedSound, ?_⟩
  have admitted : closed.checker.Admits (.block scope body) := by
    rw [closing]
    intro silent
    exact .block scope fun statement member =>
      (all statement member silent).weaken (SymbolTable.keeps_closeScope _)
  exact admitted.later after.extends

/-- A statement that is read in silence is typed where it stands. -/
theorem builds_statement (start : Checker) (levels : Nat) : Builds start (statement levels) := by
  -- Nested statements take a level less, and those in loops start inside one more loop.
  induction levels generalizing start with
  | zero => exact .tooDeep
  | succ levels ih =>
    unfold statement
    refine .idle idle_kind fun found => ?_
    cases found with
    | leftBrace => exact .idle idle_advance.discard fun _ => builds_block ih
    | breakWord =>
      refine .idle idle_advance.discard fun _ => .get fun reader here => ?_
      refine .bind (builds_check ?_) fun leave checker _ admitted =>
        .idle (idle_expect _).discard fun _ => builds_pure admitted
      intro _ fine
      rw [here.extends.loops] at fine
      rw [Checker.looping_of_checkBreak fine]
      exact .breakLoop
    | returnWord =>
      refine .idle idle_advance.discard fun _ => ?_
      refine .bind (yields_expression start levels) fun value checker _ granted => ?_
      refine .get fun reader here => ?_
      refine .bind (builds_check ?_) fun leave later _ admitted =>
        .idle (idle_expect _).discard fun _ => builds_pure admitted
      intro silent fine
      rw [here.extends.returned] at fine ⊢
      exact checkReturn_typed (granted silent) fine
    | whileWord =>
      refine .idle idle_advance.discard fun _ => ?_
      refine .bind (carries_condition levels) fun test checker _ tests => ?_
      refine .bind (carries_turn (ih _)) fun body later extended turn => ?_
      refine builds_pure fun silent => ?_
      obtain ⟨typed, testable⟩ := tests.later extended.toGrows silent
      exact .whileLoop typed testable (turn silent)
    | forWord =>
      refine .idle idle_advance.discard fun _ => .idle (idle_expect _).discard fun _ => ?_
      refine .bind (builds_assignment levels) fun init first _ started => ?_
      refine .idle (idle_expect _).discard fun _ => ?_
      refine .bind (yields_expression first levels) fun value second toSecond granted => ?_
      refine .bind (carries_checkTest granted) fun test third toThird tests => ?_
      refine .idle (idle_expect _).discard fun _ => ?_
      refine .bind (builds_assignment levels) fun increment fourth toFourth next => ?_
      refine .idle (idle_expect _).discard fun _ => ?_
      refine .bind (carries_turn (ih _)) fun body last toLast turn => ?_
      refine builds_pure fun silent => ?_
      -- What has been read before is typed in all that is known at the end.
      have begun := started.later (toSecond.trans (toThird.trans (toFourth.trans toLast))) silent
      obtain ⟨typed, testable⟩ := tests.later (toFourth.trans toLast).toGrows silent
      exact .forLoop begun typed testable (next.later toLast silent) (turn silent)
    | ifWord =>
      refine .idle idle_advance.discard fun _ => ?_
      refine .bind (carries_condition levels) fun test checker _ tests => ?_
      refine .bind (ih checker) fun body later extended taken => ?_
      refine .idle idle_kind fun follows => ?_
      split
      · refine .idle idle_advance.discard fun _ => ?_
        refine .bind (ih later) fun otherwise last further other => ?_
        refine builds_pure fun silent => ?_
        obtain ⟨typed, testable⟩ := tests.later (extended.trans further).toGrows silent
        exact .ifElse typed testable (taken.later further silent) (other silent)
      · refine builds_pure fun silent => ?_
        obtain ⟨typed, testable⟩ := tests.later extended.toGrows silent
        exact .ifThen typed testable (taken silent)
    | _ =>
      exact .bind (builds_assignment levels) fun done checker _ admitted =>
        .idle (idle_expect _).discard fun _ => builds_pure admitted

end Reading

end SmallC
