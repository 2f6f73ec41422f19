import SmallC.Proofs.Ending.Procedures
import SmallC.Proofs.Nesting.Limit

/-! Reading ends: no loop turns more often than there are tokens, every part that is read takes some of
them, and nothing is taken behind the end of the source. -/

namespace SmallC

/-- The parts of a unit that loops and calls lead to, each with what it reads. -/
inductive Passage : Type → Type where
  /-- The stars before a name. -/
  | stars : Passage Nat
  /-- A variable in a declaration. -/
  | declarator (specifier : Specifier) : Passage Unit
  /-- A declaration of variables. -/
  | declaration : Passage Unit
  /-- The declarations that start a block. -/
  | declarations : Passage Unit
  /-- A parameter. -/
  | parameter : Passage Ty
  /-- The parameters of a function. -/
  | signature (specifier : Specifier) (indirection : Nat) : Passage (Ty × ScopeId)
  /-- A type in parentheses. -/
  | typeName : Passage Ty
  /-- The arguments of a call. -/
  | callArguments : Passage (List Expression)
  /-- An expression. -/
  | expression : Passage Expression
  /-- Operands with operators of the given precedences. -/
  | operation {tiers : List Tier} (listed : tiers <:+ Tier.all) : Passage Expression
  /-- An operand with the operators before it. -/
  | prefixed : Passage Expression
  /-- An operand with the operators after it. -/
  | suffixed : Passage Expression
  /-- An operand without operators. -/
  | primary : Passage Expression
  /-- A condition in parentheses. -/
  | condition : Passage Expression
  /-- An expression or an assignment. -/
  | assignment : Passage Statement
  /-- A statement. -/
  | statement : Passage Statement
  /-- The body of a loop. -/
  | loopBody : Passage Statement
  /-- The statements of a block. -/
  | statements : Passage (List Statement)
  /-- A variable or a function after the first declarator of a declaration. -/
  | globalDeclarator (specifier : Specifier) : Passage Unit
  /-- The declarators after the first one. -/
  | furtherDeclarators (specifier : Specifier) : Passage Unit
  /-- The body of a function. -/
  | functionBody (name : String) (type : Ty) (scope : ScopeId) : Passage Function
  /-- What stands at the top of a unit. -/
  | topLevel : Passage (Option Function)

namespace Passage

variable {α : Type}

/-- Read it. -/
def read (levels : Nat) : Passage α → Reading α
  | stars => Reading.stars
  | declarator specifier => Reading.declarator specifier
  | declaration => Reading.declaration
  | declarations => Reading.declarations
  | parameter => Reading.parameter
  | signature specifier indirection => Reading.signature specifier indirection
  | typeName => Reading.typeName
  | callArguments => Reading.callArguments (Reading.expression levels)
  | expression => Reading.expression levels
  | @operation tiers _ => Reading.operation tiers levels
  | prefixed => Reading.prefixed levels
  | suffixed => Reading.suffixed levels
  | primary => Reading.primary levels
  | condition => Reading.condition levels
  | assignment => Reading.assignment levels
  | statement => Reading.statement levels
  | loopBody => Reading.insideLoop (Reading.statement levels)
  | statements => Reading.many (· ≠ .rightBrace) (Reading.statement levels)
  | globalDeclarator specifier => Reading.globalDeclarator specifier
  | furtherDeclarators specifier => Reading.furtherDeclarators specifier
  | functionBody name type scope => Reading.functionBody name type scope
  | topLevel => Reading.topLevel

/-- Read it without clocks, counting the steps. -/
def meter (turns levels : Nat) : Passage α → Metered α
  | stars => Metered.stars turns
  | declarator specifier => Metered.declarator turns specifier
  | declaration => Metered.declaration turns
  | declarations => Metered.declarations turns
  | parameter => Metered.parameter turns
  | signature specifier indirection => Metered.signature turns specifier indirection
  | typeName => Metered.typeName turns
  | callArguments => Metered.callArguments (Metered.expression turns levels) turns
  | expression => Metered.expression turns levels
  | @operation tiers _ => Metered.operation turns tiers levels
  | prefixed => Metered.prefixed turns levels
  | suffixed => Metered.suffixed turns levels
  | primary => Metered.primary turns levels
  | condition => Metered.condition turns levels
  | assignment => Metered.assignment turns levels
  | statement => Metered.statement turns levels
  | loopBody => Metered.insideLoop (Metered.statement turns levels)
  | statements => Metered.whileAt (· ≠ .rightBrace) (Metered.statement turns levels) turns
  | globalDeclarator specifier => Metered.globalDeclarator turns specifier
  | furtherDeclarators specifier => Metered.furtherDeclarators turns specifier
  | functionBody name type scope => Metered.functionBody turns name type scope
  | topLevel => Metered.topLevel turns

/-- How many tokens it takes at least. -/
def least : Passage α → Nat
  -- Only what may be left out altogether takes none.
  | stars | declarations | callArguments | statements => 0
  | declarator _ | signature .. | expression | operation _ | prefixed | suffixed | primary
  | assignment | globalDeclarator _ | furtherDeclarators _ => 1
  | parameter | statement | loopBody | functionBody .. => 2
  | declaration | typeName | condition | topLevel => 3

/-- Every part takes its tokens, and they pay for all of its steps but a few. -/
theorem spends (passage : Passage α) (turns levels : Nat) :
    Metered.Spends turns none passage.least (-1) 7 (passage.meter turns levels)
      (passage.read levels) := by
  -- Each part spends no more than its own procedure, and they all have so much to spare.
  cases passage with
  | stars => exact Metered.spends_stars.within (by decide) (by decide) (by decide)
  | declarator => exact (Metered.spends_declarator _).within (Nat.le_refl _) (by decide) (by decide)
  | declaration => exact Metered.spends_declaration.within (by decide) (by decide) (by decide)
  | declarations => exact Metered.spends_declarations.within (by decide) (by decide) (by decide)
  | parameter => exact Metered.spends_parameter.within (by decide) (by decide) (by decide)
  | signature => exact (Metered.spends_signature _ _).within (Nat.le_refl _) (by decide) (by decide)
  | typeName => exact Metered.spends_typeName.within (by decide) (by decide) (by decide)
  | callArguments =>
    exact Metered.spends_callArguments fun here => Metered.spends_expression turns here levels
  | expression =>
    exact (Metered.spends_expression turns none levels).within (by decide) (by decide) (by decide)
  | operation listed =>
    have few : _ ≤ 6 := listed.length_le
    exact (Metered.spends_operation turns none _ levels few).within (Nat.le_refl _) (by omega)
      (by decide)
  | prefixed =>
    exact (Metered.spends_prefixed turns none levels).within (by decide) (by decide) (by decide)
  | suffixed =>
    exact (Metered.spends_suffixed turns none levels).within (by decide) (by decide) (by decide)
  | primary =>
    exact (Metered.spends_primary turns none levels).within (by decide) (by decide) (by decide)
  | condition => exact (Metered.spends_condition levels).within (by decide) (by decide) (by decide)
  | assignment => exact (Metered.spends_assignment levels).within (by decide) (by decide) (by decide)
  | statement =>
    exact (Metered.spends_statement turns none levels).within (by decide) (by decide) (by decide)
  | loopBody =>
    exact (Metered.Spends.insideLoop (Metered.spends_statement turns none levels)).within (by decide)
      (by decide) (by decide)
  | statements =>
    exact Metered.Spends.many (fun found _ => Metered.spends_statement turns found levels)
      (by decide) (by decide) (by decide)
  | globalDeclarator =>
    exact (Metered.spends_globalDeclarator _).within (Nat.le_refl _) (by decide) (by decide)
  | furtherDeclarators =>
    exact (Metered.spends_furtherDeclarators _).within (Nat.le_refl _) (by decide) (by decide)
  | functionBody =>
    exact (Metered.spends_functionBody _ _ _).within (Nat.le_refl _) (by decide) (by decide)
  | topLevel => exact Metered.spends_topLevel.within (by decide) (by decide) (by decide)

end Passage

/-- No more tokens are ahead of a unit than there are. -/
theorem Reader.distance_before (tokens : List Token) (limit : Nat) (checker : Checker) :
    (Reader.before tokens limit checker).distance ≤ tokens.length := by
  cases tokens with
  | nil => exact Nat.le_of_eq (Reader.distance_eq_zero.mpr rfl)
  | cons token rest => exact Reader.distance_le _

namespace Metered

variable {σ : Type}

/-- A unit is read without clocks to the same end as with them, from the given reader on, and the tokens
before the end of the source pay for all steps but a few. -/
structure Finishes (reader : Reader) (steps : Nat) (result : Option (Outcome σ) × Nat)
    (outcome : Outcome σ) : Prop where
  /-- The end is the same. -/
  same : result.1 = some outcome
  /-- There are so many steps at most. -/
  bounded : result.2 ≤ steps + price * reader.distance + 3
  /-- What is taken stands before the end of the source. -/
  travels : ∃ taken, reader.Travels taken outcome.reader
  /-- Only the end of the source ends a unit well. -/
  ended : outcome.failure? = none → outcome.reader.current.kind = .done

/-- What follows tokens that pay for the steps so far finishes the whole. -/
theorem Finishes.behind {reader next : Reader} {steps more taken : Nat}
    {result : Option (Outcome σ) × Nat} {outcome : Outcome σ} (travels : reader.Travels taken next)
    (paid : more ≤ steps + price * taken) (rest : Finishes next more result outcome) :
    Finishes reader steps result outcome := by
  obtain ⟨same, bounded, ⟨further, onwards⟩, ended⟩ := rest
  refine ⟨same, ?_, ⟨taken + further, travels.trans onwards⟩, ended⟩
  have counted := travels.sight.2
  unfold price at *
  omega

theorem finishes_readDeclarations (consume : Consumer σ) {turns : Nat} (left : Nat)
    (clock : List Token) (reader : Reader) (steps : Nat) (output : σ) (near : reader.distance < left)
    (turning : left ≤ turns) (lasting : reader.distance ≤ clock.length) :
    Finishes reader steps (readDeclarations consume turns left ⟨reader, steps⟩ output)
      (SmallC.readDeclarations consume clock reader output) := by
  -- The induction is on the turns that are left, of which there are more than tokens ahead.
  induction left generalizing clock reader steps output with
  | zero => cases near
  | succ left ih =>
    unfold SmallC.readDeclarations readDeclarations
    by_cases done : reader.current.kind = .done
    · rw [if_pos done, if_pos done]
      exact ⟨rfl, by unfold price; dsimp only; omega, ⟨0, .refl reader⟩, fun _ => done⟩
    · rw [if_neg done, if_neg done]
      cases clock with
      | nil => exact absurd (Reader.distance_eq_zero.mp (Nat.le_zero.mp lasting)) done
      | cons tick clock =>
        have longer : reader.distance ≤ clock.length + 1 := lasting
        have topmost : Spends turns none 3 85 2 (topLevel turns) Reading.topLevel := spends_topLevel
        have closer : reader.distance < turns := by omega
        have paid := topmost.paid closer (steps + 1)
        dsimp only
        generalize topLevel turns ⟨reader, steps + 1⟩ = one, Reading.topLevel reader = two at paid
        cases paid with
        | @error failure next taken spent travels within =>
          have counted := travels.sight.2
          refine ⟨rfl, ?_, ⟨taken, travels⟩, fun ended => by cases ended⟩
          unfold price at *
          dsimp only
          omega
        | @ok value next taken spent travels enough within =>
          have counted := travels.sight.2
          unfold price at within
          cases value with
          | none =>
            have rest := ih clock next (steps + 1 + spent) output (by omega) (by omega) (by omega)
            exact rest.behind travels (by unfold price; omega)
          | some function =>
            -- What is done with the function leaves the tokens alone.
            let consumed := consume function next.checker.symbols output
            let checker := { next.checker with symbols := consumed.1 }
            have acts : next.checker.Stays checker := Checker.stays_of_eq rfl rfl
            have onwards := travels.trans (.acts acts)
            have same : (Reader.distance { next with checker }) = next.distance := rfl
            have rest := ih clock { next with checker } (steps + 1 + spent + 1) consumed.2 (by omega)
              (by omega) (by omega)
            exact rest.behind onwards (by unfold price; omega)

theorem finishes_readUnit (consume : Consumer σ) {turns : Nat} {tokens : List Token}
    (near : tokens.length < turns) (limit : Nat) (output : σ) :
    Finishes (Reader.before tokens limit {}) 0 (readUnit consume turns tokens limit output)
      (SmallC.readUnit consume tokens limit output) :=
  finishes_readDeclarations consume turns _ _ 0 output
    (Nat.lt_of_le_of_lt (Reader.distance_before tokens limit {}) near) (Nat.le_refl turns)
    (Reader.distance_le _)

end Metered

/-- Where a loop has ended, the token in hand does not pass its test. -/
theorem Reading.whileAt_stops {α : Type} {test : TokenKind → Bool} {item : Reading α}
    {clock : List Token} {reader next : Reader} {values : List α}
    (done : Reading.whileAt test item clock reader = .ok values next) :
    test next.current.kind = false := by
  -- A loop succeeds only by a test that fails, with or without time left on its clock.
  induction clock generalizing reader next values with
  | nil =>
    obtain ⟨found, looked, known, done⟩ := bind_ok done
    cases known
    split at done
    · cases done
    · next refused =>
      obtain ⟨-, rfl⟩ := pure_ok done
      exact Bool.eq_false_iff.mpr refused
  | cons tick clock ih =>
    obtain ⟨found, looked, known, done⟩ := bind_ok done
    cases known
    split at done
    · obtain ⟨first, after, -, done⟩ := bind_ok done
      obtain ⟨others, last, rest, done⟩ := bind_ok done
      obtain ⟨-, rfl⟩ := pure_ok done
      exact ih rest
    · next refused =>
      obtain ⟨-, rfl⟩ := pure_ok done
      exact Bool.eq_false_iff.mpr refused

/-- A part that must take a token fails at the end of the source, and whatever is tried there leaves the
tokens as they are. -/
theorem Passage.atEnd {α : Type} (passage : Passage α) (levels : Nat) {reader : Reader}
    (done : reader.current.kind = .done) :
    (1 ≤ passage.least → ∃ failure next, passage.read levels reader = .error failure next) ∧
      ∀ next, ((∃ value, passage.read levels reader = .ok value next) ∨
        ∃ failure, passage.read levels reader = .error failure next) →
          next.current = reader.current ∧ next.rest = reader.rest := by
  -- From the end of the source a reader travels nowhere.
  have paid := (passage.spends (reader.distance + 1) levels).paid (Nat.lt_succ_self _) 0
  generalize passage.meter (reader.distance + 1) levels ⟨reader, 0⟩ = one,
    passage.read levels reader = two at paid
  cases paid with
  | @ok value next taken spent travels enough within =>
    obtain ⟨rfl, same⟩ := travels.done done
    refine ⟨fun some => absurd (Nat.le_trans some enough) (by decide), ?_⟩
    rintro _ (⟨_, ⟨⟩⟩ | ⟨_, ⟨⟩⟩)
    exact same
  | @error failure next taken spent travels within =>
    refine ⟨fun _ => ⟨failure, next, rfl⟩, ?_⟩
    rintro _ (⟨_, ⟨⟩⟩ | ⟨_, ⟨⟩⟩)
    exact (travels.done done).2

/-- Statements that no brace closes are not read. -/
theorem statements_unclosed (levels : Nat) {reader : Reader}
    (unclosed : ∀ token ∈ reader.sight, token.kind ≠ .rightBrace) :
    ∃ failure next, Passage.statements.read levels reader = .error failure next := by
  have paid := (Passage.statements.spends (reader.distance + 1) levels).paid (Nat.lt_succ_self _) 0
  cases read : Passage.statements.read levels reader with
  | error failure next => exact ⟨failure, next, rfl⟩
  | ok values next =>
    -- The token that stops the loop is in sight from the start.
    rw [read] at paid
    generalize Passage.statements.meter (reader.distance + 1) levels ⟨reader, 0⟩ = one at paid
    cases paid with
    | ok travels enough within =>
      obtain ⟨rest, seen⟩ := next.head_sight
      have inside : next.current ∈ reader.sight := by
        apply List.mem_of_mem_drop
        rw [← travels.sight.1, seen]
        exact List.mem_cons_self
      have stopped := Reading.whileAt_stops read
      exact absurd (by simpa using stopped) (unclosed next.current inside)

/-- Reading always ends, whatever the tokens are, with or without the end of the source among them, and
however many levels may be open. Without any clocks every part does what it does with them, in a number
of steps that the tokens it takes allow for, and so does a whole unit, no loop of which turns more often
than there are tokens. Whatever is not a mere list takes a token where it is read, nothing is taken
behind the end of the source, statements that are never closed are a failure, and a unit is only read
well to its end. -/
theorem reading_ends :
    (∀ {α : Type} (passage : Passage α) (turns levels : Nat) (reader : Reader) (steps : Nat),
      reader.distance < turns →
        Metered.Paid reader steps passage.least (-1) 7 (passage.meter turns levels ⟨reader, steps⟩)
          (passage.read levels reader)) ∧
    (∀ {α : Type} (passage : Passage α) (levels : Nat) (reader : Reader),
      reader.current.kind = .done →
        (1 ≤ passage.least → ∃ failure next, passage.read levels reader = .error failure next) ∧
        ∀ next, ((∃ value, passage.read levels reader = .ok value next) ∨
          ∃ failure, passage.read levels reader = .error failure next) →
            next.current = reader.current ∧ next.rest = reader.rest) ∧
    (∀ (levels : Nat) (reader : Reader), (∀ token ∈ reader.sight, token.kind ≠ .rightBrace) →
      ∃ failure next, Passage.statements.read levels reader = .error failure next) ∧
    ∀ {σ : Type} (consume : Consumer σ) (turns : Nat) (tokens : List Token) (limit : Nat) (output : σ),
      tokens.length < turns →
        let outcome := readUnit consume tokens limit output
        ∃ steps, Metered.readUnit consume turns tokens limit output = (some outcome, steps) ∧
          steps ≤ 32 * (tokens.length + 1) ∧
          (outcome.failure? = none → outcome.reader.current.kind = .done) := by
  refine ⟨fun passage turns levels reader steps near =>
    (passage.spends turns levels).paid near steps, fun passage levels _ => passage.atEnd levels,
    fun levels _ => statements_unclosed levels, ?_⟩
  intro σ consume turns tokens limit output near outcome
  have finishes := Metered.finishes_readUnit consume near limit output
  have few := Reader.distance_before tokens limit {}
  have bounded := finishes.bounded
  unfold price at bounded
  refine ⟨(Metered.readUnit consume turns tokens limit output).2, Prod.ext finishes.same rfl, ?_,
    finishes.ended⟩
  omega

/-- The start of a function whose loop breaks off, without an end of the source. -/
def brokenOff : List Token :=
  [(.specifier .int, "int"), (.identifier, "f"), (.leftParen, "("), (.voidWord, "void"),
    (.rightParen, ")"), (.leftBrace, "\x7b"), (.whileWord, "while"), (.leftParen, "?")].map
      fun piece => ⟨piece.1, piece.2, .start⟩

/-- A body that breaks off fails where the tokens end, however many levels there are: its loop is paid for
by the two tokens it has, there is no statement behind them, and no brace closes the body. -/
theorem reading_ends_brokenOff :
    let outcome := readUnit ignoring brokenOff 1000 ()
    let body := Reader.before (brokenOff.drop 6) 1000 {}
    (brokenOff.length < 9 ∧ outcome.failure? = some (.unexpectedToken 1 "end of input")) ∧
      (∃ steps, Metered.readUnit ignoring 9 brokenOff 1000 () = (some outcome, steps) ∧
        steps ≤ 32 * (brokenOff.length + 1)) ∧
      (body.distance < 3 ∧ Metered.Paid body 0 2 (-1) 7 (Passage.statement.meter 3 1000 ⟨body, 0⟩)
        (Passage.statement.read 1000 body)) ∧
      (∃ failure next,
        Passage.statement.read 1000 (Reader.before [] 1000 {}) = .error failure next) ∧
      ∃ failure next, Passage.statements.read 1000 body = .error failure next := by
  have unclosed : ∀ token ∈ (Reader.before (brokenOff.drop 6) 1000 {}).sight,
      token.kind ≠ .rightBrace := by decide +kernel
  have near : (Reader.before (brokenOff.drop 6) 1000 {}).distance < 3 := by decide +kernel
  obtain ⟨pays, fails, breaks, ends⟩ := reading_ends
  obtain ⟨steps, same, bounded, -⟩ := ends ignoring 9 brokenOff 1000 () (by decide)
  exact ⟨⟨by decide, by cbv⟩, ⟨steps, same, bounded⟩, ⟨near, pays .statement 3 1000 _ 0 near⟩,
    (fails .statement 1000 _ rfl).1 (by decide), breaks 1000 _ unclosed⟩

end SmallC
