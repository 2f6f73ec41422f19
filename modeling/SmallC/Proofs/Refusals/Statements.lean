import SmallC.Proofs.Refusals.Procedures

/-! The answers of statements and of what stands at the top of a unit. -/

namespace SmallC

namespace Metered

open Answers (kind)

variable {ι : Type} {known : List Token → Prop} {turns : Nat}

/-! Statements. -/

theorem answers_assignment (known : List Token → Prop) (levels : Nat) :
    Answers known False (.of Clause.Assigns) (assignment turns levels)
      fun more => Reading.assignment more := by
  have value (known : List Token → Prop) := answers_expression turns known levels
  unfold assignment Reading.assignment
  refine Answers.within ?_ Part.assigns_within
  refine (value known).calm.bind fun left => .choose ?_ .pure
  refine .past (by decide) ?_
  exact ((value anywhere).calm.along Prod.fst).judged

theorem answers_condition (levels : Nat) :
    Answers known False (.of Clause.Condition) (condition turns levels)
      fun more => Reading.condition more := by
  unfold condition Reading.condition
  refine Answers.within ?_ Part.condition_within
  refine (Answers.expect (by decide) False.elim).skip ?_
  refine (answers_expression turns anywhere levels).calm.bind fun value => .checks fun test => ?_
  exact (Answers.expect (by decide) False.elim).discard.last

theorem answers_statement (turns : Nat) (known : List Token → Prop) (levels : Nat) :
    Answers known False (.of Clause.Derives) (statement turns levels)
      fun more => Reading.statement more := by
  -- The statements inside of one are read with one level less.
  induction levels generalizing known with
  | zero =>
    unfold statement
    exact .tooDeep
  | succ levels inside =>
    have value := answers_expression turns anywhere levels
    refine .deeper (fun reader value next done => ?_) ?_
    · unfold Reading.statement at done
      cases done
    unfold statement Reading.statement
    refine kind fun found => ?_
    cases found with
    | leftBrace =>
      refine Answers.within ?_ Part.block_within
      refine .past (by decide) ?_
      refine .acts (fun _ => Checker.adds_of_eq rfl rfl) fun scope => ?_
      refine answers_declarations.bind fun _ => ?_
      refine (Answers.many (fun found _ => (inside _).along fun pair : (Nat × ScopeId) × PUnit =>
        pair.1.1) turns).bind fun body => ?_
      refine Answers.within ?_ (Part.nothing_andThen _)
      refine (Answers.act fun _ => Checker.adds_of_eq rfl rfl).skip ?_
      exact (Answers.expect (by decide) False.elim).discard.last
    | breakWord =>
      refine Answers.within ?_ Part.break_within
      refine .past (by decide) (.look fun reader => .checks fun leave => ?_)
      exact (Answers.expect (by decide) False.elim).discard.last
    | returnWord =>
      refine Answers.within ?_ Part.return_within
      refine .past (by decide) (value.calm.bind fun result => ?_)
      refine .look fun reader => .checks fun leave => ?_
      exact (Answers.expect (by decide) False.elim).discard.last
    | whileWord =>
      refine Answers.within ?_ Part.while_within
      refine .past (by decide) ((answers_condition levels).bind fun test => ?_)
      exact ((inside anywhere).along Prod.fst).insideLoop.last
    | forWord =>
      refine Answers.within ?_ Part.for_within
      refine .past (by decide) ((Answers.expect (by decide) False.elim).skip ?_)
      refine (answers_assignment anywhere levels).bind fun init => ?_
      refine (Answers.expect (by decide) False.elim).skip ?_
      refine (value.calm.along Prod.fst).bind fun found => .checks fun test => ?_
      refine (Answers.expect (by decide) False.elim).skip ?_
      refine ((answers_assignment anywhere levels).along fun pair :
        ((Nat × Statement) × Expression) × Expression => pair.1.1.1).bind fun increment => ?_
      refine (Answers.expect (by decide) False.elim).skip ?_
      exact ((inside anywhere).along fun pair : (((Nat × Statement) × Expression) × Expression) ×
        Statement => pair.1.1.1.1).insideLoop.last
    | ifWord =>
      refine Answers.within ?_ Part.if_within
      refine .past (by decide) ((answers_condition levels).bind fun test => ?_)
      refine ((inside anywhere).along Prod.fst).bind fun body => .choose ?_ .pure
      refine .past (by decide) ?_
      exact ((inside anywhere).along fun pair : (Nat × Expression) × Statement => pair.1.1).last
    | _ =>
      refine Answers.within ?_ Part.simple_within
      refine (answers_assignment _ levels).bind fun done => ?_
      exact (Answers.expect (by decide) False.elim).discard.last

/-! Units. -/

theorem answers_declarePrototype (name : String) (type : Ty) (names : ι → String) (types : ι → Ty) :
    Answers known False .nothing (declarePrototype name type)
      fun index => Reading.declarePrototype (names index) (types index) := by
  refine .acts Checker.adds_closeParameters fun _ => ?_
  exact (Answers.act (Checker.adds_declareFunction trivial type)).discard

theorem answers_globalDeclarator (specifier : Specifier) (specifiers : ι → Specifier) :
    Answers known False (.of Part.Declared) (globalDeclarator turns specifier)
      fun index => Reading.globalDeclarator (specifiers index) := by
  unfold globalDeclarator Reading.globalDeclarator
  refine Answers.within ?_ Part.declared_within
  refine answers_stars.bind fun indirection => (answers_name False.elim).bind fun name => ?_
  -- The parenthesis behind the name tells a prototype from an object.
  refine .choose ?_ (answers_declareObject _ _ _ _ _ _)
  refine .past (by decide) ?_
  refine (answers_signature _ _ _ _).bind fun signed => Answers.within ?_ (Part.nothing_andThen _)
  refine (answers_declarePrototype _ _ _ _).bind fun _ => ?_
  exact (Answers.expect (by decide) False.elim).discard

theorem answers_furtherDeclarators (specifier : Specifier) (specifiers : ι → Specifier) :
    Answers known False .furtherDeclarators (furtherDeclarators turns specifier)
      fun index => Reading.furtherDeclarators (specifiers index) := by
  have declarators (known : List Token → Prop) :=
    @answers_globalDeclarator ι known turns specifier specifiers
  have others := (Answers.furtherItems declarators turns).knowing
    fun tokens (_ : known tokens) => trivial
  exact others.skip (Answers.expect (by decide) False.elim).discard

/-- Read the body of a function after a change of the checker. -/
def bodyReading (change : Checker → Checker) (name : String) (type : Ty) (parameters limit : Nat) :
    Reading Function := do
  Reading.adjust change
  let symbol ← Reading.act (Checker.defineFunction name type)
  discard (Reading.expect .leftBrace)
  Reading.declarations
  let body ← Reading.many (· ≠ .rightBrace) (Reading.statement limit)
  let scope ← Reading.act Checker.closeScope
  discard (Reading.expect .rightBrace)
  return { symbol, parameters, scope, body }

/-- The checker may begin a function before its body is read, and need not. -/
theorem functionBody_read {name : String} {type : Ty} {scope : ScopeId} {reader next : Reader}
    {function : Function} (done : Reading.functionBody name type scope reader = .ok function next) :
    ∃ change, bodyReading change name type (reader.checker.symbols.symbolsOf scope).length reader.limit
      reader = .ok function next := by
  unfold Reading.functionBody at done
  obtain ⟨found, _, looked, done⟩ := Reading.bind_ok done
  cases looked
  -- A type without a specifier is no function type, and then nothing is begun.
  cases known : type.specifier? with
  | none =>
    simp only [known] at done
    exact ⟨id, done⟩
  | some specifier =>
    simp only [known] at done
    exact ⟨_, done⟩

/-- The body of a function behind what is done before it. -/
theorem answers_body (name : String) (type : Ty) (parameters limit : Nat) (names : ι → String)
    (types : ι → Ty) (scopes : ι → ScopeId) :
    Answers known False ((Part.lone .leftBrace).andThen .inside)
      (do let symbol ← once (Reading.act (Checker.defineFunction name type))
          discard (expect .leftBrace)
          declarations turns
          let body ← whileAt (· ≠ .rightBrace) (statement turns limit) turns
          let scope ← once (Reading.act Checker.closeScope)
          discard (expect .rightBrace)
          return ⟨symbol, parameters, scope, body⟩ : Metered Function)
      fun index => Reading.functionBody (names index) (types index) (scopes index) := by
  -- Whatever the checker may have done is among the readings that are compared.
  refine Answers.covered (?_ : Answers known False _ _
    fun index : ι × (Checker → Checker) × Nat × Nat =>
      bodyReading index.2.1 (names index.1) (types index.1) index.2.2.1 index.2.2.2) ?_
  · refine .actsRight (.acts (Checker.adds_defineFunction trivial trivial type) fun symbol => ?_)
    refine (Answers.expect (by decide) False.elim).skip ?_
    refine answers_declarations.bind fun _ => ?_
    refine (Answers.many (fun found _ => (answers_statement turns _ limit).along
      fun index : (((ι × (Checker → Checker) × Nat × Nat) × PUnit) × SymbolId) × PUnit =>
        index.1.1.1.2.2.2) turns).bind fun body => ?_
    refine .acts (fun _ => Checker.adds_of_eq rfl rfl) fun scope => ?_
    exact (Answers.expect (by decide) False.elim).discard.last
  · intro index reader function next done
    obtain ⟨change, done⟩ := functionBody_read done
    exact ⟨(index, change, _, _), function, done⟩

theorem answers_functionBody (name : String) (type : Ty) (scope : ScopeId) (names : ι → String)
    (types : ι → Ty) (scopes : ι → ScopeId) :
    Answers known False ((Part.lone .leftBrace).andThen .inside)
      (functionBody turns name type scope)
      fun index => Reading.functionBody (names index) (types index) (scopes index) := by
  unfold functionBody
  refine .looksLeft fun reader => ?_
  dsimp only
  cases type.specifier? with
  | none => exact answers_body _ _ _ _ _ _ _
  | some specifier =>
    exact .actsLeft (fun _ => Checker.adds_of_eq rfl rfl) fun _ => answers_body _ _ _ _ _ _ _

theorem answers_topLevel :
    Answers known False (.of Global.Derives) (topLevel turns) (fun _ : ι => Reading.topLevel) := by
  unfold topLevel Reading.topLevel
  refine Answers.within ?_ Part.global_within
  refine answers_specifier.bind fun specifier => answers_stars.bind fun indirection => ?_
  refine (answers_name False.elim).bind fun name => ?_
  -- The parenthesis behind the name tells functions from objects, and a brace tells bodies from
  -- prototypes.
  refine .choose ?_ ?_
  · refine .past (by decide) ?_
    refine (answers_signature _ _ _ _).bind fun signed => ?_
    refine (Answers.expect (by decide) False.elim).skip (.choose ?_ ?_)
    · exact (answers_functionBody _ _ _ _ _ _).last
    · refine Answers.within ?_ (Part.nothing_andThen _)
      refine (answers_declarePrototype _ _ _ _).bind fun _ => ?_
      exact (answers_furtherDeclarators _ _).last
  · refine (answers_declareObject _ _ _ _ _ _).bind fun _ => ?_
    exact (answers_furtherDeclarators _ _).last

end Metered

end SmallC
