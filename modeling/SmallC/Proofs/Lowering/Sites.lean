import SmallC.Proofs.Lowering.Statements

/-! Sites: the code of a function cut into stretches, each with what it is emitted for. -/

namespace SmallC

/-- What a stretch of code is emitted for. -/
inductive Site where
  /-- A node that is no decision works on the values of its parts. -/
  | node (expression : Expression) (progress : Progress)
  /-- A decision takes a place for its value before anything is computed. -/
  | enter (type : Ty) (progress : Progress)
  /-- A computed value is compared with zero and jumped on. -/
  | test (value : Expression) (progress : Progress) (jump : Opcode) (target : Label)
  /-- A decision stores its value. -/
  | settle (either : Bool) (type : Ty) (progress : Progress)
  /-- A block gives its variables places. -/
  | bind (scope : ScopeId) (progress : Progress)
  /-- A computed value is stored in a computed place. -/
  | store (left right : Expression) (progress : Progress)
  /-- A computed value is returned. -/
  | give (value : Expression) (progress : Progress) (exit : Label)
  /-- A point of the code gets its label. -/
  | mark (label : Label)
  /-- Control goes on at a label. -/
  | jump (label : Label)

namespace Site

/-- The code that is emitted at a site. -/
def code : Site → Code
  | .node expression progress => expression.own progress
  | .test value progress opcode target =>
    compareZero (value.lowered progress).value value.type ++ [operate opcode [.target target]]
  | .settle either type progress =>
    let result := progress.skip.skip.slot type
    [operate .movl [immediate (if either then 0 else 1), result],
      operate .jmp [.target progress.skip.label], .mark progress.label,
      operate .movl [immediate (if either then 1 else 0), result], .mark progress.skip.label]
  | .store left right progress =>
    storeValue left.type right.type (left.located (right.after progress)).place
      (right.lowered progress).value
  | .give value progress exit =>
    [loadReturned value.type (value.lowered progress).value, operate .jmp [.target exit]]
  | .mark label => [.mark label]
  | .jump label => [operate .jmp [.target label]]
  -- Places are handed out without any code.
  | .enter .. | .bind .. => []

/-- The sites of a decision, around those of its operands. -/
def decision (either : Bool) (left right : Expression) (type : Ty) (progress : Progress)
    (first second : List Site) : List Site :=
  let opcode := if either then .jne else .je
  let entry := progress.enter type
  .enter type progress :: (first ++ .test left entry opcode progress.label :: (second
    ++ [.test right (left.after entry) opcode progress.label, .settle either type progress]))

end Site

/-- The code that is emitted at sites in order. -/
def codeAt (sites : List Site) : Code := sites.flatMap Site.code

@[simp] theorem codeAt_nil : codeAt [] = [] := rfl

@[simp] theorem codeAt_cons (site : Site) (rest : List Site) :
    codeAt (site :: rest) = site.code ++ codeAt rest := List.flatMap_cons

@[simp] theorem codeAt_append (sites others : List Site) :
    codeAt (sites ++ others) = codeAt sites ++ codeAt others := List.flatMap_append

/-- Every item of the code belongs to one of the sites. -/
theorem site_of_item {sites : List Site} {index : Nat} {item : Item}
    (here : (codeAt sites)[index]? = some item) : ∃ before site after offset,
      sites = before ++ site :: after ∧ index = (codeAt before).length + offset ∧
        site.code[offset]? = some item := by
  induction sites generalizing index with
  | nil => cases here
  | cons first rest ih =>
    rw [codeAt_cons] at here
    -- Either the item is in the code of the first site, or behind all of it.
    rcases Nat.lt_or_ge index first.code.length with inner | beyond
    · rw [List.getElem?_append_left inner] at here
      exact ⟨[], first, rest, index, rfl, (Nat.zero_add index).symm, here⟩
    · rw [List.getElem?_append_right beyond] at here
      obtain ⟨before, site, after, offset, rfl, place, found⟩ := ih here
      refine ⟨first :: before, site, after, offset, rfl, ?_, found⟩
      rw [codeAt_cons, List.length_append]
      omega

namespace Expression

mutual

/-- The sites of an expression that is lowered from the given progress on, in order. -/
def sites : Expression → Progress → List Site
  | .call callee arguments type, progress =>
    sitesAll arguments progress ++ [.node (.call callee arguments type) progress]
  -- What is behind a pointer is reached without a value of its own.
  | .unary .address (.unary .dereference pointer pointed) type, progress =>
    sites pointer progress
      ++ [.node (.unary .address (.unary .dereference pointer pointed) type) progress]
  | .step op scale (.unary .dereference pointer pointed) type, progress =>
    sites pointer progress
      ++ [.node (.step op scale (.unary .dereference pointer pointed) type) progress]
  | .unary op operand type, progress =>
    sites operand progress ++ [.node (.unary op operand type) progress]
  | .step op scale operand type, progress =>
    sites operand progress ++ [.node (.step op scale operand type) progress]
  | .binary .logicalAnd left right type, progress =>
    let entry := progress.enter type
    Site.decision false left right type progress (sites left entry)
      (sites right (left.after entry))
  | .binary .logicalOr left right type, progress =>
    let entry := progress.enter type
    Site.decision true left right type progress (sites left entry)
      (sites right (left.after entry))
  | .binary op left right type, progress =>
    sites left progress ++ (sites right (left.after progress)
      ++ [.node (.binary op left right type) progress])
  | .integer value type, progress => [.node (.integer value type) progress]
  | .real spelling, progress => [.node (.real spelling) progress]
  | .string text, progress => [.node (.string text) progress]
  | .identifier symbol type, progress => [.node (.identifier symbol type) progress]

/-- The sites of expressions that are lowered in order. -/
def sitesAll : List Expression → Progress → List Site
  | [], _ => []
  | first :: rest, progress => sites first progress ++ sitesAll rest (first.after progress)

end

/-- Either an expression is what a pointer leads to, or it is computed itself to be reached. -/
theorem target_cases (operand : Expression) :
    (∃ pointer pointed, operand = .unary .dereference pointer pointed) ∨
      operand.target = operand ∧ ∀ pointer pointed, operand ≠ .unary .dereference pointer pointed := by
  -- A target is looked through only where a pointer is followed.
  by_cases behind : ∃ pointer pointed, operand = .unary .dereference pointer pointed
  · exact .inl behind
  · have direct : ∀ pointer pointed, operand ≠ .unary .dereference pointer pointed :=
      fun pointer pointed same => behind ⟨pointer, pointed, same⟩
    refine .inr ⟨?_, direct⟩
    unfold target
    split
    · exact absurd rfl (direct _ _)
    · rfl

variable (progress : Progress)

theorem sitesAll_single (operand : Expression) :
    sitesAll [operand] progress = operand.sites progress := by
  rw [sitesAll, sitesAll, List.append_nil]

/-- A node that is no decision comes after its parts. -/
theorem sites_strict {expression : Expression} (strict : expression.isDecision = false) :
    expression.sites progress = sitesAll expression.parts progress ++ [.node expression progress] := by
  cases expression with
  | integer | real | string | identifier => simp [sites, parts, sitesAll]
  | call callee arguments type => rw [sites, parts]
  | unary op operand type =>
    cases op with
    | address =>
      rw [parts, sitesAll_single]
      -- A pointer under an address is passed by, so the part is what the target is.
      rcases operand.target_cases with ⟨pointer, pointed, rfl⟩ | ⟨itself, direct⟩
      · rw [sites, target]
      · rw [itself, sites]
        exact fun pointer pointed _ => direct pointer pointed
    | _ =>
      rw [parts, sitesAll_single, sites] <;> (intros; contradiction)
  | step op scale operand type =>
    rw [parts, sitesAll_single]
    rcases operand.target_cases with ⟨pointer, pointed, rfl⟩ | ⟨itself, direct⟩
    · rw [sites, target]
    · rw [itself, sites]
      exact direct
  | binary op left right type =>
    obtain ⟨conjunction, disjunction⟩ := operator_strict strict
    rw [parts, sitesAll, sitesAll_single, sites, List.append_assoc]
    · exact conjunction
    · exact disjunction

/-- A decision comes around its operands. -/
theorem sites_decision (either : Bool) (left right : Expression) (type : Ty) :
    (Expression.binary (decision either) left right type).sites progress =
      Site.decision either left right type progress (left.sites (progress.enter type))
        (right.sites (left.after (progress.enter type))) := by
  cases either with
  | false =>
    show (Expression.binary .logicalAnd left right type).sites progress = _
    rw [sites]
  | true =>
    show (Expression.binary .logicalOr left right type).sites progress = _
    rw [sites]

/-- The sites of expressions make up their code if those of each one do. -/
theorem codeAt_sitesAll_of {expressions : List Expression}
    (each : ∀ expression ∈ expressions, ∀ progress : Progress,
      codeAt (expression.sites progress) = (expression.lowered progress).code)
    (progress : Progress) :
    codeAt (sitesAll expressions progress) = codeAll expressions progress := by
  induction expressions generalizing progress with
  | nil => rw [sitesAll]; rfl
  | cons first rest ih =>
    rw [sitesAll, codeAll_cons, codeAt_append, each first (by simp),
      ih fun expression member => each expression (by simp [member])]

/-- The code of an expression is that of its sites. -/
theorem codeAt_sites (expression : Expression) (progress : Progress) :
    codeAt (expression.sites progress) = (expression.lowered progress).code := by
  induction expression using inductionOnParts generalizing progress with
  | strict expression plain ih =>
    rw [sites_strict progress plain, codeAt_append, codeAt_sitesAll_of ih,
      (shaped_own progress plain).code]
    exact congrArg _ (List.append_nil _)
  -- The sites of a decision stand among the code of its operands as they do in the listing.
  | decision either left right type first second =>
    rw [sites_decision]
    unfold Expression.lowered at *
    rw [lower_decision]
    simp only [Site.decision, codeAt_cons, codeAt_append, codeAt_nil, first, second, shortCircuit,
      Site.code]
    simp [lowered]

end Expression

namespace Statement

section After

variable (exits : Exits) (progress : Progress)

theorem after_evaluate (value : Expression) :
    (evaluate value).after exits progress = value.after progress := by
  unfold after
  rw [lower_evaluate]

theorem after_assign (left right : Expression) :
    (assign left right).after exits progress = left.locatedAfter (right.after progress) := by
  unfold after
  rw [lower_assign]

theorem after_breakLoop : breakLoop.after exits progress = progress := by
  unfold after
  rw [lower_breakLoop]

theorem after_returnValue (value : Expression) :
    (returnValue value).after exits progress = value.after progress := by
  unfold after
  rw [lower_returnValue]

theorem after_block (scope : ScopeId) (body : List Statement) :
    (block scope body).after exits progress = afterAll exits body (progress.bind scope) := by
  unfold after
  rw [lower_block]

theorem after_whileLoop (test : Expression) (body : Statement) :
    (whileLoop test body).after exits progress =
      body.after (exits.within progress.skip.label) (test.after progress.skip.skip) := by
  unfold after
  rw [lower_whileLoop]
  rfl

theorem after_forLoop (init : Statement) (test : Expression) (increment body : Statement) :
    (forLoop init test increment body).after exits progress =
      increment.after exits (body.after (exits.within progress.skip.label)
        (test.after (init.after exits progress.skip.skip))) := by
  unfold after
  rw [lower_forLoop]
  rfl

theorem after_ifThen (test : Expression) (body : Statement) :
    (ifThen test body).after exits progress = body.after exits (test.after progress.skip) := by
  unfold after
  rw [lower_ifThen]
  rfl

theorem after_ifElse (test : Expression) (body otherwise : Statement) :
    (ifElse test body otherwise).after exits progress =
      otherwise.after exits (body.after exits (test.after progress.skip)).skip := by
  unfold after
  rw [lower_ifElse]
  rfl

theorem afterAll_nil : afterAll exits [] progress = progress := rfl

theorem afterAll_cons (first : Statement) (rest : List Statement) :
    afterAll exits (first :: rest) progress = afterAll exits rest (first.after exits progress) := by
  unfold afterAll
  rw [lowerAll_cons]
  rfl

end After

mutual

/-- The sites of a statement that is lowered from the given progress on, in order. -/
def sites : Statement → Exits → Progress → List Site
  | .evaluate value, _, progress => value.sites progress
  | .assign left right, _, progress =>
    right.sites progress ++ (left.target.sites (right.after progress)
      ++ [.store left right progress])
  | .breakLoop, exits, _ => (exits.loop?.map Site.jump).toList
  | .returnValue value, exits, progress =>
    value.sites progress ++ [.give value progress exits.function]
  | .block scope body, exits, progress =>
    .bind scope progress :: sitesAll body exits (progress.bind scope)
  | .whileLoop test body, exits, progress =>
    let entry := progress.skip.skip
    let exit := progress.skip.label
    .mark progress.label :: (test.sites entry ++ .test test entry .je exit
      :: (sites body (exits.within exit) (test.after entry) ++ [.jump progress.label, .mark exit]))
  | .forLoop init test increment body, exits, progress =>
    let entry := progress.skip.skip
    let exit := progress.skip.label
    let started := init.after exits entry
    let turned := body.after (exits.within exit) (test.after started)
    sites init exits entry ++ .mark progress.label :: (test.sites started
      ++ .test test started .je exit :: (sites body (exits.within exit) (test.after started)
      ++ (sites increment exits turned ++ [.jump progress.label, .mark exit])))
  | .ifThen test body, exits, progress =>
    let entry := progress.skip
    test.sites entry ++ .test test entry .je progress.label
      :: (sites body exits (test.after entry) ++ [.mark progress.label])
  | .ifElse test body otherwise, exits, progress =>
    let entry := progress.skip
    let taken := body.after exits (test.after entry)
    test.sites entry ++ .test test entry .je progress.label
      :: (sites body exits (test.after entry) ++ .jump taken.label :: .mark progress.label
      :: (sites otherwise exits taken.skip ++ [.mark taken.label]))

/-- The sites of statements that are lowered in order. -/
def sitesAll : List Statement → Exits → Progress → List Site
  | [], _, _ => []
  | first :: rest, exits, progress =>
    sites first exits progress ++ sitesAll rest exits (first.after exits progress)

end

/-- The sites of statements make up their code if those of each one do. -/
theorem codeAt_sitesAll_of {statements : List Statement} {exits : Exits}
    (each : ∀ statement ∈ statements, ∀ progress : Progress,
      codeAt (statement.sites exits progress) = statement.lowered exits progress)
    (progress : Progress) :
    codeAt (sitesAll statements exits progress) = loweredAll exits statements progress := by
  induction statements generalizing progress with
  | nil => rw [sitesAll]; rfl
  | cons first rest ih =>
    -- The code of a list is written one statement behind the other, and so are its sites.
    rw [sitesAll, codeAt_append, each first (by simp),
      ih fun statement member => each statement (by simp [member])]
    unfold loweredAll
    rw [lowerAll_cons]
    rfl

/-- The code of a statement is that of its sites. -/
theorem codeAt_sites (statement : Statement) (exits : Exits) (progress : Progress) :
    codeAt (statement.sites exits progress) = statement.lowered exits progress := by
  -- Every kind of statement puts its own code between that of its parts.
  induction statement using inductionOn generalizing exits progress with
  | evaluate value =>
    rw [sites, Expression.codeAt_sites]
    unfold lowered
    rw [lower_evaluate]
  | assign left right =>
    rw [sites, codeAt_append, codeAt_append, Expression.codeAt_sites, Expression.codeAt_sites,
      ← (Expression.located_target _ left).1]
    unfold lowered
    rw [lower_assign]
    simp [Site.code]
  | breakLoop =>
    unfold lowered
    rw [sites, lower_breakLoop]
    cases exits.loop? <;> rfl
  | returnValue value =>
    unfold lowered
    rw [sites, codeAt_append, Expression.codeAt_sites, lower_returnValue]
    rfl
  | block scope body each =>
    unfold lowered
    rw [sites, codeAt_cons, codeAt_sitesAll_of fun statement member => each statement member exits,
      lower_block]
    rfl
  | whileLoop test body turn =>
    unfold lowered
    rw [sites, lower_whileLoop]
    simp [Expression.codeAt_sites, turn, Expression.tested, Site.code]
  | forLoop init test increment body start next turn =>
    unfold lowered
    rw [sites, lower_forLoop]
    simp [Expression.codeAt_sites, start, next, turn, Expression.tested, Site.code]
  | ifThen test body taken =>
    unfold lowered
    rw [sites, lower_ifThen]
    simp [Expression.codeAt_sites, taken, Expression.tested, Site.code]
  | ifElse test body otherwise taken other =>
    unfold lowered
    rw [sites, lower_ifElse]
    simp [Expression.codeAt_sites, taken, other, Expression.tested, Site.code]

end Statement

/-- The sites of a function's body, the label standing for its end. -/
def Function.sites (function : Function) (symbols : SymbolTable) (nextLabel : Nat) : List Site :=
  Statement.sitesAll function.body { function := ⟨nextLabel⟩ } (function.entry symbols nextLabel)

/-- The code of a function's body is that of its sites. -/
theorem Function.codeAt_sites (function : Function) (symbols : SymbolTable) (nextLabel : Nat) :
    codeAt (function.sites symbols nextLabel) = function.bodyCode symbols nextLabel :=
  Statement.codeAt_sitesAll_of (fun statement _ => statement.codeAt_sites _) _

end SmallC
