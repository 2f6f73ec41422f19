import SmallC.Proofs.Derivations.Complete
import SmallC.Proofs.Derivations.SoundUnits
import SmallC.Proofs.Nesting.Limit

/-! Declarations, statements and units of the grammar are read, where enough levels are left. -/

namespace SmallC

namespace Reading

theorem Complete.discard {α β : Type} {action : Reading α}
    {grammar : List Token → β → List Token → Prop} {meaning : β → Checking α} {size : Nat}
    (complete : Complete action grammar meaning size) :
    Complete (Functor.discard action) grammar (fun thing => Functor.discard (meaning thing)) size := by
  intro start thing rest derived short longer checker value final checked
  obtain ⟨found, judged⟩ := Checking.of_discard checked
  exact .discard (complete derived short longer judged)

/-! Declarations. -/

/-- Before the declared name stand its stars, and after it what the declaration reads. -/
theorem reaches_declareObject {specifier : Specifier} {start rest : List Token}
    {declarator : Declarator} (whole : Declarator.Whole specifier start declarator rest)
    (longer : 0 < rest.length) : ∃ name middle,
      Stars start declarator.indirection (name :: middle) ∧ name.kind = .identifier ∧
        name.text = declarator.name ∧ 0 < middle.length ∧ ahead middle ≠ .leftParen ∧
          ∀ {checker value final}, declarator.elaborate specifier checker = (value, final) →
            Reaches (declareObject specifier declarator.indirection declarator.name)
              ⟨middle, checker⟩ value ⟨rest, final⟩ := by
  obtain ⟨derived, ends⟩ := whole
  -- The name is declared at the end of both forms.
  have declare {type : Ty} {name : String} {checker final : Checker} {value : Unit}
      (checked : (Functor.discard (Checker.declareVariable name type) : Checking Unit) checker =
        (value, final)) :
      Reaches (Functor.discard (act (Checker.declareVariable name type))) ⟨rest, checker⟩ value
        ⟨rest, final⟩ := by
    obtain ⟨symbol, declared⟩ := Checking.of_discard checked
    exact .discard (.act (Checker.blind_declareVariable _ _) declared)
  cases derived with
  | @scalar _ indirection name stars named =>
    refine ⟨name, rest, stars, named, rfl, longer, ?_, fun checked => ?_⟩
    · rcases ends with ends | ends <;> simp [ends]
    have plain : ahead rest ≠ .leftBracket := by rcases ends with ends | ends <;> simp [ends]
    refine .bind (.bind .kind ?_) (declare checked)
    rw [if_neg plain]
    exact .pure _
  | @array _ indirection length name opening number closing stars named opens spelled fits nonempty
      closes small =>
    refine ⟨name, _, stars, named, rfl, by simp, by simp [opens], fun checked => ?_⟩
    refine .bind (.bind .kind ?_) (declare checked)
    rw [ahead_cons, if_pos opens]
    have counted (checker : Checker) : Reaches arrayLength ⟨number :: closing :: rest, checker⟩ length
        ⟨closing :: rest, checker⟩ := by
      refine .get fun _ _ => .bind (reaches_wholeNumber spelled fits (by simp)) ?_
      rw [if_neg nonempty]
      exact .pure _
    refine .bind (.discard (.expect opens (by simp))) (.get fun _ _ => .bind (counted _) ?_)
    refine .bind (.discard (.expect closes longer)) ?_
    rw [Ty.sizedArray?, if_pos small]
    exact .pure _

theorem complete_declarator (specifier : Specifier) (size : Nat) :
    Complete (declarator specifier) (Declarator.Whole specifier) (Declarator.elaborate specifier)
      size := by
  rintro start declarator rest whole short longer checker value final checked
  obtain ⟨name, middle, stars, named, same, further, _, declare⟩ := reaches_declareObject whole longer
  refine .bind (reaches_stars stars (by simp [named]) (by simp)) ?_
  refine .bind (reaches_name named further) ?_
  rw [same]
  exact declare checked

theorem complete_declaration (size : Nat) :
    Complete declaration Declaration.Derives Declaration.elaborate size := by
  rintro _ _ rest ⟨specified, declared, closes⟩ short longer checker value final checked
  -- Each declarator ends before a comma or before the semicolon.
  have whole := Commas.follow TokenKind.endsDeclarator (.inl rfl) declared (.inr closes)
  have inside := Commas.shorter (fun _ _ _ => Declarator.Derives.shorter) declared
  refine .bind (reaches_specifier specified (by omega)) ?_
  refine .bind ((complete_commaSeparated (complete_declarator _ _) ?_).discard
    ⟨whole, by simp [closes]⟩ (Nat.le_refl _) (by simp) checked) ?_
  · exact fun _ _ _ whole => whole.1.shorter
  exact .discard (.expect closes longer)

theorem complete_declarations (size : Nat) :
    Complete declarations
      (fun start declared rest => Run Declaration.Derives start declared rest ∧
        (ahead rest).isSpecifier = false)
      (fun declared => Functor.discard (declared.mapM' Declaration.elaborate)) size :=
  Complete.discard (complete_many (complete_declaration size)
    (fun _ _ _ => Declaration.Derives.opens) fun _ _ _ => Declaration.Derives.shorter)

/-! Parameters. -/

theorem complete_parameter (size : Nat) :
    Complete parameter Parameter.Derives Parameter.elaborate size := by
  rintro start parameter rest derived short longer checker value final checked
  cases derived with
  | @scalar word name start _ specifier indirection specified stars named =>
    have inside := stars.shorter
    simp only [List.length_cons] at inside
    -- Only the declaration of the name concerns the checker.
    obtain ⟨_, known, declared, same⟩ := Checking.bind_eq.mp checked
    obtain ⟨symbol, entered⟩ := Checking.of_discard declared
    cases same
    refine .bind (reaches_specifier specified (by omega)) ?_
    refine .bind (reaches_stars stars (by simp [named]) (by simp)) ?_
    refine .bind (reaches_name named longer) ?_
    exact .bind (.discard (.act (Checker.blind_declareVariable _ _) entered)) (.pure _)

theorem reaches_furtherParameters {start rest : List Token} {parameters : Parameters}
    (further : FurtherParameters start parameters rest) (closes : ahead rest = .rightParen)
    (longer : 0 < rest.length) :
    ∀ clock : List Token, start.length ≤ clock.length → ∀ {checker value final},
      declareParameters parameters checker = (value, final) →
        Reaches (furtherParameters clock) ⟨start, checker⟩ value ⟨rest, final⟩ := by
  obtain ⟨listed, variadic⟩ := parameters
  obtain ⟨middle, run, last⟩ : ∃ middle, Run (AfterComma Parameter.Derives) start listed middle ∧
      (middle = rest ∧ variadic = false ∨ ∃ comma dots, middle = comma :: dots :: rest ∧
        comma.kind = .comma ∧ dots.kind = .ellipsis ∧ variadic = true) := by
    cases variadic with
    | false => exact ⟨rest, further, .inl ⟨rfl, rfl⟩⟩
    | true =>
      obtain ⟨comma, dots, run, separated, dotted⟩ := further
      exact ⟨_, run, .inr ⟨comma, dots, rfl, separated, dotted, rfl⟩⟩
  have more : 0 < middle.length := by
    rcases last with ⟨rfl, _⟩ | ⟨comma, dots, rfl, _⟩
    · exact longer
    · simp
  clear further
  induction run with
  | nil =>
    intro clock enough checker value final checked
    cases checked
    rcases last with ⟨rfl, rfl⟩ | ⟨comma, dots, rfl, separated, dotted, rfl⟩
    · cases clock <;>
      · refine .bind .kind ?_
        rw [closes]
        exact .pure _
    · obtain _ | ⟨token, clock⟩ := clock
      · simp only [List.length_cons, List.length_nil] at enough
        omega
      · refine .bind .kind ?_
        rw [ahead_cons, if_pos separated]
        refine .bind (.discard (.advance (by simp))) (.bind .kind ?_)
        rw [ahead_cons, if_pos dotted]
        exact .bind (.discard (.advance longer)) (.pure _)
  | @cons _ later rest first others head tail ih =>
    intro clock enough checker value final checked
    obtain ⟨comma, start, rfl, separated, derived⟩ := head
    have less := derived.shorter
    have inside := Run.shorter (fun _ _ _ => AfterComma.shorter fun _ _ _ => Parameter.Derives.shorter) tail
    simp only [List.length_cons] at enough
    obtain ⟨_, _, all, same⟩ := Checking.bind_eq.mp checked
    cases same
    obtain ⟨type, known, declared, all⟩ := Checking.bind_eq.mp all
    obtain ⟨types, _, all, same⟩ := Checking.bind_eq.mp all
    cases same
    obtain _ | ⟨token, clock⟩ := clock
    · simp only [List.length_nil] at enough
      omega
    simp only [List.length_cons] at enough
    -- A parameter starts with a specifier, not with the dots.
    have plain : ahead start ≠ .ellipsis := by
      intro dotted
      have opens := derived.opens
      rw [dotted] at opens
      cases opens
    refine .bind .kind ?_
    rw [ahead_cons, if_pos separated]
    refine .bind (.discard (.advance (by omega))) (.bind .kind ?_)
    rw [if_neg plain]
    refine .bind (complete_parameter _ derived (Nat.le_refl _) (by omega) declared) ?_
    exact .bind (ih last more clock (by omega) (Checking.then_eq all rfl)) (.pure _)

theorem complete_parameterList (size : Nat) :
    Complete parameterList
      (fun start parameters rest => parameters.Derives start rest ∧ ahead rest = .rightParen)
      declareParameters size := by
  rintro start parameters rest ⟨derived, closes⟩ short longer checker value final checked
  -- The first parameter and those after it.
  have listed {start middle : List Token} {first : Parameter} (others : List Parameter)
      (variadic : Bool) (derived : first.Derives start middle)
      (further : FurtherParameters middle ⟨others, variadic⟩ rest) {value : List Ty × Bool}
      (more : 0 < middle.length)
      (checked : declareParameters ⟨first :: others, variadic⟩ checker = (value, final)) :
      Reaches parameterList ⟨start, checker⟩ value ⟨rest, final⟩ := by
    have plain : ahead start ≠ .voidWord := by
      intro nothing
      have opens := derived.opens
      rw [nothing] at opens
      cases opens
    obtain ⟨_, _, all, same⟩ := Checking.bind_eq.mp checked
    cases same
    obtain ⟨type, known, declared, all⟩ := Checking.bind_eq.mp all
    obtain ⟨types, _, all, same⟩ := Checking.bind_eq.mp all
    cases same
    refine .bind .kind ?_
    rw [if_neg plain]
    refine .bind (complete_parameter _ derived (Nat.le_refl _) more declared) ?_
    refine .get fun reader reached => ?_
    have same : reader.remaining = middle := congrArg Stage.tokens reached
    rw [same]
    have rest : declareParameters ⟨others, variadic⟩ known = ((types, variadic), final) :=
      Checking.then_eq all rfl
    exact .bind (reaches_furtherParameters further closes longer middle (Nat.le_refl _) rest) (.pure _)
  have each (start : List Token) (parameter : Parameter) (rest : List Token) :
      AfterComma Parameter.Derives start parameter rest → rest.length < start.length :=
    AfterComma.shorter fun _ _ _ => Parameter.Derives.shorter
  cases derived with
  | nothing spelled =>
    cases checked
    refine .bind .kind ?_
    rw [ahead_cons, if_pos spelled]
    exact .bind (.discard (.advance longer)) (.pure _)
  | closed parameters =>
    obtain ⟨first, others, middle, rfl, derived, run⟩ := (commas_iff _).mp parameters
    have inside := Run.shorter each run
    exact listed others false derived run (by omega) checked
  | @variadic comma dots _ _ _ parameters separated dotted =>
    obtain ⟨first, others, middle, rfl, derived, run⟩ := (commas_iff _).mp parameters
    have inside := Run.shorter each run
    simp only [List.length_cons] at inside
    exact listed others true derived ⟨comma, dots, run, separated, dotted⟩ (by omega) checked

theorem complete_signature (specifier : Specifier) (indirection size : Nat) :
    Complete (signature specifier indirection)
      (fun start parameters rest => parameters.Derives start rest ∧ ahead rest = .rightParen)
      (Parameters.elaborate specifier indirection) size := by
  rintro start parameters rest derived short longer checker value final checked
  obtain ⟨scope, known, opened, checked⟩ := Checking.bind_eq.mp checked
  obtain ⟨types, _, all, same⟩ := Checking.bind_eq.mp checked
  cases same
  refine .bind (.act Checker.blind_openScope opened) ?_
  exact .bind (complete_parameterList size derived short longer (Checking.then_eq all rfl)) (.pure _)

/-! Statements. -/

theorem complete_assignment (size : Nat) {levels : Nat} (enough : 2 * size ≤ levels) :
    Complete (assignment levels)
      (fun start clause rest => Clause.Assigns start clause rest ∧
        ahead rest ∈ [.semicolon, .rightParen]) Clause.elaborate size := by
  rintro start clause rest ⟨assigns, ends⟩ short longer checker value final checked
  simp only [List.mem_cons, List.not_mem_nil, or_false] at ends
  -- Neither token that may follow continues an expression.
  have last : Rung.expression.goesOn (ahead rest) = false :=
    not_goesOn_expression (by rcases ends with ends | ends <;> simp [ends])
  cases assigns with
  | evaluate derived =>
    rw [Clause.elaborate] at checked
    obtain ⟨left, _, judged, same⟩ := Checking.bind_eq.mp checked
    cases same
    have plain : ahead rest ≠ .assign := by rcases ends with ends | ends <;> simp [ends]
    refine .bind (complete_expression size enough ⟨derived, last⟩ short longer judged) (.bind .kind ?_)
    rw [if_neg plain]
    exact .pure _
  | @assign sign _ middle _ left right first spelled second =>
    have left := first.shorter
    have right := second.shorter
    simp only [List.length_cons] at left
    rw [Clause.elaborate] at checked
    obtain ⟨place, known, placed, checked⟩ := Checking.bind_eq.mp checked
    obtain ⟨stored, later, judged, recorded⟩ := Checking.bind_eq.mp checked
    have whole : Rung.expression.goesOn sign.kind = false := not_goesOn_expression (by simp [spelled])
    refine .bind (complete_expression size enough ⟨first, whole⟩ short (by simp) placed) (.bind .kind ?_)
    rw [ahead_cons, if_pos spelled]
    refine .bind (.discard (.advance (by omega))) ?_
    refine .bind (complete_expression size enough ⟨second, last⟩ (by omega) longer judged) ?_
    exact .check recorded

theorem complete_condition (size : Nat) {levels : Nat} (enough : 2 * size ≤ levels) :
    Complete (condition levels) Clause.Condition Clause.elaborateTest size := by
  rintro start test rest tests short longer checker value final checked
  cases tests with
  | @parenthesised opening closing start _ _ opens derived closes =>
    have inside := derived.shorter
    simp only [List.length_cons] at short inside
    obtain ⟨found, known, judged, recorded⟩ := Checking.bind_eq.mp checked
    -- The closing parenthesis ends the expression, so it is read up to there.
    have whole : Rung.expression.goesOn closing.kind = false := not_goesOn_expression (by simp [closes])
    refine .bind (.discard (.expect opens (by omega))) ?_
    refine .bind (complete_expression size enough ⟨derived, whole⟩ (by omega) (by simp) judged) ?_
    exact .bind (.check recorded) (.bind (.discard (.expect closes longer)) (.pure _))

theorem complete_insideLoop {α β : Type} {body : Reading α}
    {grammar : List Token → β → List Token → Prop} {meaning : β → Checking α} {size : Nat}
    (complete : Complete body grammar meaning size) :
    Complete (insideLoop body) grammar (fun thing => Clause.elaborateTurn (meaning thing)) size := by
  rintro start thing rest derived short longer checker value final checked reader reached
  obtain ⟨_, _, entered, checked⟩ := Checking.bind_eq.mp checked
  obtain ⟨found, known, turned, left⟩ := Checking.bind_eq.mp checked
  cases entered
  cases left
  cases reached
  -- The body is read by the same reader with one loop more.
  obtain ⟨next, done, last⟩ := complete derived short longer turned
    { reader with checker := reader.checker.enterLoop } rfl
  refine ⟨{ next with checker := next.checker.leaveLoop }, ?_, ?_⟩
  · simp [insideLoop, done]
  · cases last
    rfl

/-! A statement is read with one level more than the statements inside it: each production of the
grammar in turn, given that a level less is enough for everything shorter. -/

section

variable {levels : Nat} {rest : List Token} {checker final : Checker} {value : Statement}

theorem reaches_simple {start : List Token} {clause : Clause} {closing : Token}
    (enough : 2 * start.length ≤ levels) (assigns : Clause.Assigns start clause (closing :: rest))
    (closes : closing.kind = .semicolon) (longer : 0 < rest.length)
    (checked : clause.elaborate checker = (value, final)) :
    Reaches (statement (levels + 1)) ⟨start, checker⟩ value ⟨rest, final⟩ := by
  have read : Reaches (assignment levels) ⟨start, checker⟩ value ⟨closing :: rest, final⟩ :=
    complete_assignment start.length enough ⟨assigns, by simp [closes]⟩ (Nat.le_refl _)
      (by simp) checked
  have opens := assigns.opens
  unfold statement
  refine .bind .kind ?_
  cases found : ahead start with
  | leftBrace | breakWord | returnWord | whileWord | forWord | ifWord =>
    -- An expression does not start with what starts the other statements.
    rw [found] at opens
    cases opens
  | _ => exact .bind read (.bind (.discard (.expect closes longer)) (.pure _))

theorem reaches_breakLoop {word closing : Token} (spelled : word.kind = .breakWord)
    (closes : closing.kind = .semicolon) (longer : 0 < rest.length)
    (checked : Clause.breakLoop.elaborate checker = (value, final)) :
    Reaches (statement (levels + 1)) ⟨word :: closing :: rest, checker⟩ value ⟨rest, final⟩ := by
  rw [Clause.elaborate] at checked
  obtain ⟨_, _, same, recorded⟩ := Checking.bind_eq.mp checked
  cases same
  unfold statement
  refine .bind .kind ?_
  rw [ahead_cons, spelled]
  refine .bind (.discard (.advance (by simp))) (.get fun reader reached => ?_)
  -- The check sees the loops of the reader, which are those of the checker at hand.
  have same : reader.checker.unplaced = checker := congrArg Stage.checker reached
  rw [← same] at recorded ⊢
  exact .bind (.check recorded) (.bind (.discard (.expect closes longer)) (.pure _))

theorem reaches_returnValue {word closing : Token} {start : List Token} {phrase : Phrase}
    (enough : 2 * start.length ≤ levels) (spelled : word.kind = .returnWord)
    (derived : phrase.Derives .expression start (closing :: rest))
    (closes : closing.kind = .semicolon) (longer : 0 < rest.length)
    (checked : (Clause.returnValue phrase).elaborate checker = (value, final)) :
    Reaches (statement (levels + 1)) ⟨word :: start, checker⟩ value ⟨rest, final⟩ := by
  have inside := derived.shorter
  simp only [List.length_cons] at inside
  rw [Clause.elaborate] at checked
  obtain ⟨returned, known, judged, checked⟩ := Checking.bind_eq.mp checked
  obtain ⟨_, _, same, recorded⟩ := Checking.bind_eq.mp checked
  cases same
  have whole : Rung.expression.goesOn closing.kind = false :=
    not_goesOn_expression (by simp [closes])
  unfold statement
  refine .bind .kind ?_
  rw [ahead_cons, spelled]
  refine .bind (.discard (.advance (by omega))) ?_
  refine .bind (complete_expression start.length enough ⟨derived, whole⟩
    (Nat.le_refl _) (by simp) judged) (.get fun reader reached => ?_)
  -- The value is judged by what the checker knows behind it, wherever that is.
  have same : reader.checker.unplaced = known := congrArg Stage.checker reached
  rw [← same] at recorded ⊢
  exact .bind (.check recorded) (.bind (.discard (.expect closes longer)) (.pure _))

/-- These levels are enough for the statements of fewer than so many tokens. -/
def ReadsBelow (levels size : Nat) : Prop :=
  ∀ less, less < size → Complete (statement levels) Clause.Whole Clause.elaborate less

theorem reaches_block {opening closing : Token} {start middle : List Token}
    {declared : List Declaration} {body : List Clause}
    (inner : ReadsBelow levels (start.length + 1)) (opens : opening.kind = .leftBrace)
    (declares : Run Declaration.Derives start declared middle)
    (runs : Run Clause.Derives middle body (closing :: rest)) (closes : closing.kind = .rightBrace)
    (longer : 0 < rest.length)
    (checked : (Clause.block declared body).elaborate checker = (value, final)) :
    Reaches (statement (levels + 1)) ⟨opening :: start, checker⟩ value ⟨rest, final⟩ := by
  have first := Run.shorter (fun _ _ _ => Declaration.Derives.shorter) declares
  have second := Clause.Derives.shorter_run runs
  simp only [List.length_cons] at second
  rw [Clause.elaborate, elaborateAll_eq_mapM_clause] at checked
  obtain ⟨scope, known, opened, checked⟩ := Checking.bind_eq.mp checked
  obtain ⟨_, later, declaring, checked⟩ := Checking.bind_eq.mp checked
  obtain ⟨statements, last, judged, checked⟩ := Checking.bind_eq.mp checked
  obtain ⟨_, _, left, same⟩ := Checking.bind_eq.mp checked
  cases same
  obtain ⟨closed, left⟩ := Checking.of_discard left
  unfold statement
  refine .bind .kind ?_
  rw [ahead_cons, opens]
  refine .bind (.discard (.advance (by omega))) ?_
  refine .bind (.act Checker.blind_openScope opened) ?_
  -- The declarations end where a statement or the brace begins, neither of them with a specifier.
  refine .bind (complete_declarations start.length ⟨declares, ?_⟩ (Nat.le_refl _) (by omega)
    declaring) ?_
  · exact Clause.not_isSpecifier_run runs (by simp [closes])
  refine .bind (complete_many (inner start.length (by omega)) ?_
    (fun _ _ _ whole => whole.1.shorter) ⟨Clause.whole_run runs (by simp [closes]), ?_⟩ (by omega)
    (by simp) judged) ?_
  · exact fun _ _ _ whole => decide_eq_true whole.1.not_closes
  · simp [closes]
  refine .bind (.discard (.act Checker.blind_closeScope left)) ?_
  exact .bind (.discard (.expect closes longer)) (.pure _)

theorem reaches_whileLoop {word : Token} {start middle : List Token} {test : Phrase} {body : Clause}
    (inner : ReadsBelow levels (start.length + 1)) (enough : 2 * start.length ≤ levels)
    (spelled : word.kind = .whileWord) (tests : Clause.Condition start test middle)
    (whole : body.Whole middle rest) (longer : 0 < rest.length)
    (checked : (Clause.whileLoop test body).elaborate checker = (value, final)) :
    Reaches (statement (levels + 1)) ⟨word :: start, checker⟩ value ⟨rest, final⟩ := by
  -- The test leaves less than the whole, so the body may be read with the level that is left.
  have first := tests.shorter
  have second := whole.1.shorter
  rw [Clause.elaborate] at checked
  obtain ⟨condition, known, judged, checked⟩ := Checking.bind_eq.mp checked
  obtain ⟨looped, _, turned, same⟩ := Checking.bind_eq.mp checked
  cases same
  unfold statement
  refine .bind .kind ?_
  rw [ahead_cons, spelled]
  refine .bind (.discard (.advance (by omega))) ?_
  refine .bind (complete_condition start.length enough tests (Nat.le_refl _) (by omega) judged) ?_
  exact .bind (complete_insideLoop (inner middle.length (by omega)) whole (Nat.le_refl _) longer
    turned) (.pure _)

theorem reaches_forLoop {word opening first second closing : Token}
    {start tested stepped looped : List Token} {init increment body : Clause} {test : Phrase}
    (inner : ReadsBelow levels (start.length + 1)) (enough : 2 * start.length ≤ levels)
    (spelled : word.kind = .forWord) (opens : opening.kind = .leftParen)
    (starts : Clause.Assigns start init (first :: tested)) (separates : first.kind = .semicolon)
    (tests : test.Derives .expression tested (second :: stepped)) (parts : second.kind = .semicolon)
    (steps : Clause.Assigns stepped increment (closing :: looped))
    (closes : closing.kind = .rightParen) (turns : body.Whole looped rest) (longer : 0 < rest.length)
    (checked : (Clause.forLoop init test increment body).elaborate checker = (value, final)) :
    Reaches (statement (levels + 1)) ⟨word :: opening :: start, checker⟩ value ⟨rest, final⟩ := by
  -- Each part of the header takes tokens, so that all of them are within the levels.
  have starting := starts.shorter
  have testing := tests.shorter
  have stepping := steps.shorter
  have turning := turns.1.shorter
  simp only [List.length_cons] at starting testing stepping
  rw [Clause.elaborate] at checked
  obtain ⟨started, known, begun, checked⟩ := Checking.bind_eq.mp checked
  obtain ⟨condition, later, judged, checked⟩ := Checking.bind_eq.mp checked
  obtain ⟨advanced, last, moved, checked⟩ := Checking.bind_eq.mp checked
  obtain ⟨repeated, _, turned, same⟩ := Checking.bind_eq.mp checked
  obtain ⟨tried, between, valued, recorded⟩ := Checking.bind_eq.mp judged
  cases same
  have whole : Rung.expression.goesOn second.kind = false := not_goesOn_expression (by simp [parts])
  unfold statement
  refine .bind .kind ?_
  rw [ahead_cons, spelled]
  refine .bind (.discard (.advance (by simp))) ?_
  refine .bind (.discard (.expect opens (by omega))) ?_
  refine .bind (complete_assignment start.length enough ⟨starts, by simp [separates]⟩
    (Nat.le_refl _) (by simp) begun) ?_
  refine .bind (.discard (.expect separates (by omega))) ?_
  refine .bind (complete_expression tested.length (by omega) ⟨tests, whole⟩
    (Nat.le_refl _) (by simp) valued) (.bind (.check recorded) ?_)
  refine .bind (.discard (.expect parts (by omega))) ?_
  refine .bind (complete_assignment stepped.length (by omega) ⟨steps, by simp [closes]⟩
    (Nat.le_refl _) (by simp) moved) ?_
  refine .bind (.discard (.expect closes (by omega))) ?_
  exact .bind (complete_insideLoop (inner looped.length (by omega)) turns (Nat.le_refl _) longer
    turned) (.pure _)

/-- A conditional without another branch is read as one where no other branch follows. -/
theorem reaches_ifThen {word : Token} {start middle : List Token} {test : Phrase} {body : Clause}
    (inner : ReadsBelow levels (start.length + 1)) (enough : 2 * start.length ≤ levels)
    (spelled : word.kind = .ifWord) (tests : Clause.Condition start test middle)
    (derived : body.Derives middle rest) (plain : ahead rest ≠ .elseWord) (longer : 0 < rest.length)
    (checked : (Clause.ifThen test body).elaborate checker = (value, final)) :
    Reaches (statement (levels + 1)) ⟨word :: start, checker⟩ value ⟨rest, final⟩ := by
  have first := tests.shorter
  have second := derived.shorter
  rw [Clause.elaborate] at checked
  obtain ⟨condition, known, judged, checked⟩ := Checking.bind_eq.mp checked
  obtain ⟨taken, _, branched, same⟩ := Checking.bind_eq.mp checked
  cases same
  unfold statement
  refine .bind .kind ?_
  rw [ahead_cons, spelled]
  refine .bind (.discard (.advance (by omega))) ?_
  refine .bind (complete_condition start.length enough tests (Nat.le_refl _) (by omega) judged) ?_
  refine .bind (inner middle.length (by omega) ⟨derived, fun _ => plain⟩ (Nat.le_refl _)
    longer branched) (.bind .kind ?_)
  -- No other branch follows, so nothing more is read.
  rw [if_neg plain]
  exact .pure _

/-- The branch that is taken has no conditional left that could take the other branch. -/
theorem reaches_ifElse {word between : Token} {start middle further : List Token} {test : Phrase}
    {body otherwise : Clause} (inner : ReadsBelow levels (start.length + 1))
    (enough : 2 * start.length ≤ levels) (spelled : word.kind = .ifWord)
    (tests : Clause.Condition start test middle) (derived : body.Derives middle (between :: further))
    (closed : body.dangles = false) (parts : between.kind = .elseWord)
    (other : otherwise.Whole further rest) (longer : 0 < rest.length)
    (checked : (Clause.ifElse test body otherwise).elaborate checker = (value, final)) :
    Reaches (statement (levels + 1)) ⟨word :: start, checker⟩ value ⟨rest, final⟩ := by
  have first := tests.shorter
  have second := derived.shorter
  have third := other.1.shorter
  simp only [List.length_cons] at second
  rw [Clause.elaborate] at checked
  obtain ⟨condition, known, judged, checked⟩ := Checking.bind_eq.mp checked
  obtain ⟨taken, later, branched, checked⟩ := Checking.bind_eq.mp checked
  obtain ⟨refused, _, chosen, same⟩ := Checking.bind_eq.mp checked
  cases same
  -- The branch is read up to the word, since nothing in it could take the word.
  have whole : body.Whole middle (between :: further) :=
    ⟨derived, fun dangles => by simp [closed] at dangles⟩
  unfold statement
  refine .bind .kind ?_
  rw [ahead_cons, spelled]
  refine .bind (.discard (.advance (by omega))) ?_
  refine .bind (complete_condition start.length enough tests (Nat.le_refl _) (by omega) judged) ?_
  refine .bind (inner middle.length (by omega) whole (Nat.le_refl _) (by simp) branched)
    (.bind .kind ?_)
  rw [ahead_cons, if_pos parts]
  refine .bind (.discard (.advance (by omega))) ?_
  exact .bind (inner further.length (by omega) other (Nat.le_refl _) longer chosen) (.pure _)

end

theorem complete_statement (size : Nat) {levels : Nat} (enough : 2 * size + 1 ≤ levels) :
    Complete (statement levels) Clause.Whole Clause.elaborate size := by
  induction levels generalizing size with
  | zero => omega
  | succ levels ih =>
    rintro start clause rest ⟨derived, settled⟩ short longer checker value final checked
    -- Whatever follows the first token is read with a level less.
    have inner (within : Nat) (fits : within ≤ size) : ReadsBelow levels within :=
      fun less smaller => ih less (by omega)
    cases derived with
    | simple assigns closes =>
      exact reaches_simple (by omega) assigns closes longer checked
    | breakLoop spelled closes => exact reaches_breakLoop spelled closes longer checked
    | returnValue spelled derived closes =>
      simp only [List.length_cons] at short
      exact reaches_returnValue (by omega) spelled derived closes longer checked
    | block opens declares runs closes =>
      simp only [List.length_cons] at short
      exact reaches_block (inner _ short) opens declares runs closes longer checked
    | whileLoop spelled tests derived =>
      simp only [List.length_cons] at short
      exact reaches_whileLoop (inner _ short) (by omega) spelled tests ⟨derived, settled⟩ longer
        checked
    | forLoop spelled opens starts separates tests parts steps closes derived =>
      simp only [List.length_cons] at short
      exact reaches_forLoop (inner _ (by omega)) (by omega) spelled opens starts separates tests parts
        steps closes ⟨derived, settled⟩ longer checked
    | ifThen spelled tests derived =>
      simp only [List.length_cons] at short
      -- Another branch would have belonged to this conditional.
      exact reaches_ifThen (inner _ short) (by omega) spelled tests derived (settled rfl) longer
        checked
    | ifElse spelled tests derived closed parts other =>
      simp only [List.length_cons] at short
      exact reaches_ifElse (inner _ short) (by omega) spelled tests derived closed parts
        ⟨other, settled⟩ longer checked

/-! Units. -/

theorem reaches_declarePrototype {tokens : List Token} {checker final : Checker} {name : String}
    {type : Ty} {symbol : SymbolId}
    (declared : Checker.declareFunction name type checker.closeParameters = (symbol, final)) :
    Reaches (declarePrototype name type) ⟨tokens, checker⟩ ⟨⟩ ⟨tokens, final⟩ := by
  have blind : Blind fun checker : Checker => ((), checker.closeParameters) := by
    intro checker
    simp only [Checker.unplaced_closeParameters]
  exact .bind (.act blind rfl) (.discard (.act (Checker.blind_declareFunction _ _) declared))

/-- A prototype is checked when its parameters have been. -/
theorem prototype_checked {specifier : Specifier} {indirection : Nat} {name : String}
    {parameters : Parameters} {checker final : Checker} {value : Unit}
    (checked : GlobalDeclarator.elaborate specifier (.prototype indirection name parameters) checker =
      (value, final)) : ∃ signature known symbol,
        parameters.elaborate specifier indirection checker = (signature, known) ∧
          Checker.declareFunction name signature.1 known.closeParameters = (symbol, final) := by
  obtain ⟨signature, known, signed, checked⟩ := Checking.bind_eq.mp checked
  obtain ⟨_, _, closed, checked⟩ := Checking.bind_eq.mp checked
  obtain ⟨symbol, declared⟩ := Checking.of_discard checked
  cases closed
  exact ⟨signature, known, symbol, signed, declared⟩

theorem complete_globalDeclarator (specifier : Specifier) (size : Nat) :
    Complete (globalDeclarator specifier) (GlobalDeclarator.Whole specifier)
      (GlobalDeclarator.elaborate specifier) size := by
  rintro start declarator rest ⟨derived, ends⟩ short longer checker value final checked
  -- The parenthesis behind the name tells the two forms apart.
  cases derived with
  | object derived =>
    obtain ⟨name, middle, stars, named, same, further, plain, declare⟩ :=
      reaches_declareObject ⟨derived, ends⟩ longer
    refine .bind (reaches_stars stars (by simp [named]) (by simp)) ?_
    refine .bind (reaches_name named further) (.bind .kind ?_)
    rw [if_neg plain, same]
    exact declare checked
  | @prototype name opening closing _ middle _ indirection parameters stars named opens derived closes =>
    have inside := derived.shorter
    simp only [List.length_cons] at inside
    obtain ⟨signature, known, symbol, signed, declared⟩ := prototype_checked checked
    refine .bind (reaches_stars stars (by simp [named]) (by simp)) ?_
    refine .bind (reaches_name named (by simp)) (.bind .kind ?_)
    rw [ahead_cons, if_pos opens]
    refine .bind (.discard (.advance (by omega))) ?_
    refine .bind (complete_signature specifier indirection _ ⟨derived, by simp [closes]⟩
      (Nat.le_refl _) (by simp) signed) ?_
    refine .bind (reaches_declarePrototype declared) ?_
    exact .discard (.expect closes longer)

/-- After the first declarator come the others and the semicolon. -/
theorem reaches_furtherDeclarators {specifier : Specifier} {start rest : List Token}
    {declarators : List GlobalDeclarator} {closing : Token}
    (run : Run (AfterComma (GlobalDeclarator.Derives specifier)) start declarators (closing :: rest))
    (closes : closing.kind = .semicolon) (longer : 0 < rest.length) {checker final : Checker}
    {values : List Unit}
    (checked : declarators.mapM' (GlobalDeclarator.elaborate specifier) checker = (values, final)) :
    (ahead start).endsDeclarator ∧
      Reaches (furtherDeclarators specifier) ⟨start, checker⟩ ⟨⟩ ⟨rest, final⟩ := by
  have comma (start : List Token) (declarator : GlobalDeclarator) (rest : List Token)
      (derived : AfterComma (GlobalDeclarator.Derives specifier) start declarator rest) :
      (ahead start).endsDeclarator := by
    obtain ⟨comma, middle, rfl, separated, _⟩ := derived
    exact .inl separated
  -- Every declarator ends at a comma or at the semicolon.
  have whole : Run (AfterComma (GlobalDeclarator.Whole specifier)) start declarators
      (closing :: rest) := by
    refine Run.mono ?_ (Run.follow TokenKind.endsDeclarator comma run (.inr closes))
    rintro _ _ _ ⟨⟨comma, middle, rfl, separated, derived⟩, ends⟩
    exact ⟨comma, middle, rfl, separated, derived, ends⟩
  constructor
  · cases run with
    | nil => exact .inr closes
    | cons head _ => exact comma _ _ _ head
  · have shorter (start : List Token) (declarator : GlobalDeclarator) (rest : List Token)
        (whole : GlobalDeclarator.Whole specifier start declarator rest) :
        rest.length < start.length := whole.1.shorter
    refine .bind (.discard (complete_many (complete_afterComma
      (complete_globalDeclarator specifier start.length) shorter) ?_ (fun _ _ _ =>
        AfterComma.shorter shorter) ⟨whole, by simp [closes]⟩ (by simp) (by simp) checked)) ?_
    · rintro _ _ _ ⟨comma, middle, rfl, separated, _⟩
      exact decide_eq_true separated
    · exact .discard (.expect closes longer)

/-- From a stage an action succeeds where the limit of nesting is the one that is given. -/
def ReachesWithin {α : Type} (limit : Nat) (action : Reading α) (start : Stage) (value : α)
    (final : Stage) : Prop :=
  ∀ reader, reader.limit = limit → reader.stage = start →
    ∃ next, action reader = .ok value next ∧ next.stage = final

theorem Reaches.within {α : Type} {action : Reading α} {start final : Stage} {value : α}
    (reaches : Reaches action start value final) (limit : Nat) :
    ReachesWithin limit action start value final :=
  fun reader _ => reaches reader

theorem ReachesWithin.get {β : Type} {limit : Nat} {next : Reader → Reading β} {start final : Stage}
    {value : β} (second : ∀ reader, reader.limit = limit → reader.stage = start →
      Reaches (next reader) start value final) :
    ReachesWithin limit (MonadState.get >>= next) start value final :=
  fun reader kept reached => second reader kept reached reader reached

/-- The first of two actions keeps the limit. -/
theorem ReachesWithin.bind {α β : Type} {limit : Nat} {action : Reading α} {next : α → Reading β}
    {start middle final : Stage} {found : α} {value : β} {good : α → Prop} (gives : Gives action good)
    (first : Reaches action start found middle)
    (second : ReachesWithin limit (next found) middle value final) :
    ReachesWithin limit (action >>= next) start value final := by
  rintro reader rfl reached
  obtain ⟨state, begun, between⟩ := first reader reached
  obtain ⟨last, ended, done⟩ := second state (gives _ _ _ begun).2 between
  refine ⟨last, ?_, done⟩
  simp [Bind.bind, EStateM.bind, begun, ended]

theorem reaches_functionBody {declared middle rest : List Token} {brace last : Token}
    {declarations : List Declaration} {clauses : List Clause} (begins : brace.kind = .leftBrace)
    (declares : Run Declaration.Derives declared declarations middle)
    (runs : Run Clause.Derives middle clauses (last :: rest)) (ends : last.kind = .rightBrace)
    (longer : 0 < rest.length) {limit : Nat} (enough : 2 * declared.length + 1 ≤ limit) {name : String}
    {specifier : Specifier} {indirection : Nat} {types : List Ty} {variadic : Bool} {scope : ScopeId}
    {checker final : Checker} {value : Function}
    (checked : (do
      let parameters := ((← get).symbols.symbolsOf scope).length
      modify (Checker.beginFunction · (.scalar specifier indirection))
      let symbol ← Checker.defineFunction name (.function specifier indirection types variadic)
      discard (declarations.mapM' Declaration.elaborate)
      let body ← Clause.elaborateAll clauses
      let scope ← Checker.closeScope
      return { symbol, parameters, scope, body } : Checking Function) checker = (value, final)) :
    ReachesWithin limit (functionBody name (.function specifier indirection types variadic) scope)
      ⟨brace :: declared, checker⟩ value ⟨rest, final⟩ := by
  have first := Run.shorter (fun _ _ _ => Declaration.Derives.shorter) declares
  have second := Clause.Derives.shorter_run runs
  simp only [List.length_cons] at second
  obtain ⟨_, _, found, checked⟩ := Checking.bind_eq.mp checked
  obtain ⟨_, begun, started, checked⟩ := Checking.bind_eq.mp checked
  obtain ⟨symbol, defined, entered, checked⟩ := Checking.bind_eq.mp checked
  obtain ⟨_, known, declaring, checked⟩ := Checking.bind_eq.mp checked
  obtain ⟨body, later, judged, checked⟩ := Checking.bind_eq.mp checked
  obtain ⟨closed, _, left, same⟩ := Checking.bind_eq.mp checked
  cases found
  cases started
  cases same
  rw [elaborateAll_eq_mapM_clause] at judged
  unfold functionBody
  simp only [Ty.specifier?, Ty.indirection]
  refine .get fun reader kept reached => ?_
  subst kept
  -- The limit of the reader counts for the statements alone.
  have same : reader.checker.unplaced = checker := congrArg Stage.checker reached
  have blind : Blind fun known : Checker =>
      ((), known.beginFunction (.scalar specifier indirection)) := fun _ => rfl
  refine .bind (.act blind rfl) ?_
  refine .bind (.act (Checker.blind_defineFunction _ _) entered) ?_
  refine .bind (.discard (.expect begins (by omega))) ?_
  refine .bind (complete_declarations declared.length ⟨declares, ?_⟩ (Nat.le_refl _) (by omega)
    declaring) ?_
  · exact Clause.not_isSpecifier_run runs (by simp [ends])
  refine .bind (complete_many (complete_statement declared.length enough) ?_ (fun _ _ _ whole => whole.1.shorter)
    ⟨Clause.whole_run runs (by simp [ends]), by simp [ends]⟩ (by omega) (by simp) judged) ?_
  · exact fun _ _ _ whole => decide_eq_true whole.1.not_closes
  refine .bind (.act Checker.blind_closeScope left) ?_
  refine .bind (.discard (.expect ends longer)) ?_
  rw [← same]
  exact .pure _

/-- Declarators at the top of a unit are read: the first one decides that no body follows. -/
theorem reaches_topDeclaration {word closing : Token} {start rest : List Token}
    {specifier : Specifier} {declarators : List GlobalDeclarator}
    (specified : word.kind = .specifier specifier)
    (declared : Commas (GlobalDeclarator.Derives specifier) start declarators (closing :: rest))
    (closes : closing.kind = .semicolon) (longer : 0 < rest.length) {checker final : Checker}
    {value : Option Function}
    (checked : (Global.declaration specifier declarators).elaborate checker = (value, final)) :
    Reaches topLevel ⟨word :: start, checker⟩ value ⟨rest, final⟩ := by
  obtain ⟨first, others, middle, rfl, head, run⟩ := (commas_iff _).mp declared
  obtain ⟨_, _, every, same⟩ := Checking.bind_eq.mp checked
  obtain ⟨_, every⟩ := Checking.of_discard every
  obtain ⟨_, known, elaborated, every⟩ := Checking.bind_eq.mp every
  obtain ⟨_, _, all, every⟩ := Checking.bind_eq.mp every
  cases every
  cases same
  obtain ⟨follows, further⟩ := reaches_furtherDeclarators run closes longer all
  have taken := head.shorter
  have inside := Run.shorter (fun _ _ _ => AfterComma.shorter
    fun _ _ _ => GlobalDeclarator.Derives.shorter) run
  simp only [List.length_cons] at inside
  refine .bind (reaches_specifier specified (by omega)) ?_
  -- The first declarator is read before it is known that no body follows.
  cases head with
  | object head =>
    obtain ⟨name, after, stars, named, same, more, plain, declare⟩ :=
      reaches_declareObject ⟨head, follows⟩ (by omega)
    refine .bind (reaches_stars stars (by simp [named]) (by simp)) ?_
    refine .bind (reaches_name named more) (.bind .kind ?_)
    rw [if_neg plain, same]
    exact .bind (declare elaborated) (.bind further (.pure _))
  | @prototype name opening closing _ after _ indirection parameters stars named opens derived closes =>
    have listed := derived.shorter
    simp only [List.length_cons] at listed
    obtain ⟨signature, signed, symbol, listing, declared⟩ := prototype_checked elaborated
    have plain : ahead middle ≠ .leftBrace := by
      rcases follows with follows | follows <;> simp [follows]
    refine .bind (reaches_stars stars (by simp [named]) (by simp)) ?_
    refine .bind (reaches_name named (by simp)) (.bind .kind ?_)
    rw [ahead_cons, if_pos opens]
    refine .bind (.discard (.advance (by omega))) ?_
    refine .bind (complete_signature specifier indirection _ ⟨derived, by simp [closes]⟩
      (Nat.le_refl _) (by simp) listing) ?_
    refine .bind (.discard (.expect closes (by omega))) (.bind .kind ?_)
    rw [if_neg plain]
    exact .bind (reaches_declarePrototype declared) (.bind further (.pure _))

/-- Whatever stands at the top of a unit is read. -/
theorem complete_topLevel {start rest : List Token} {global : Global}
    (derived : global.Derives start rest) (longer : 0 < rest.length) {limit : Nat}
    (enough : 2 * start.length + 1 ≤ limit) {checker final : Checker} {value : Option Function}
    (checked : global.elaborate checker = (value, final)) :
    ReachesWithin limit topLevel ⟨start, checker⟩ value ⟨rest, final⟩ := by
  cases derived with
  | declaration specified declared closes =>
    exact (reaches_topDeclaration specified declared closes longer checked).within limit
  | @definition word name opening closing brace last start listed declared body _ specifier indirection
      parameters declarations clauses specified stars named opens derived closes begins declares runs
      ends =>
    have counted := stars.shorter
    have signing := derived.shorter
    have declaring := Run.shorter (fun _ _ _ => Declaration.Derives.shorter) declares
    have running := Clause.Derives.shorter_run runs
    simp only [List.length_cons] at counted signing running enough
    obtain ⟨function, _, checked, same⟩ := Checking.bind_eq.mp checked
    cases same
    obtain ⟨signature, signed, listing, checked⟩ := Checking.bind_eq.mp checked
    have read := complete_signature specifier indirection listed.length
      ⟨derived, by simp [closes]⟩ (Nat.le_refl _) (by simp) listing
    obtain ⟨scope, opened, entered, parts⟩ := Checking.bind_eq.mp listing
    obtain ⟨types, _, _, same⟩ := Checking.bind_eq.mp parts
    cases same
    refine .bind Gives.specifier (reaches_specifier specified (by omega)) ?_
    refine .bind Gives.stars (reaches_stars stars (by simp [named]) (by simp)) ?_
    refine .bind Gives.name (reaches_name named (by simp)) (.bind Gives.kind .kind ?_)
    rw [ahead_cons, if_pos opens]
    refine .bind Gives.advance.discard (.discard (.advance (by omega))) ?_
    refine .bind (Gives.signature _ _) read ?_
    refine .bind (Gives.expect _).discard (.discard (.expect closes (by simp))) (.bind Gives.kind .kind ?_)
    rw [ahead_cons, if_pos begins]
    -- Only the body depends on the limit, which has been kept so far.
    rintro reader kept reached
    obtain ⟨next, done, final⟩ := reaches_functionBody begins declares runs ends longer (by omega)
      checked reader kept reached
    refine ⟨next, ?_, final⟩
    simp [Bind.bind, EStateM.bind, done, Pure.pure, EStateM.pure]

end Reading

end SmallC
