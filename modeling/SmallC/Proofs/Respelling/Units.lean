import SmallC.Proofs.Derivations.Recognition
import SmallC.Proofs.Renaming.Units
import SmallC.Proofs.Respelling.Phrases

/-! Respelling units: subscripts and the sums that they are spelled out as compile to the same code. -/

namespace SmallC

open Checking

/-- Some subscripts of the first statement are spelled out in the second one. -/
inductive Clause.SpelledOut : Clause → Clause → Prop where
  /-- An expression alone. -/
  | evaluate {value other : Phrase} (inner : value.SpelledOut other) :
    SpelledOut (.evaluate value) (.evaluate other)
  /-- An assignment. -/
  | assign {left right place value : Phrase} (first : left.SpelledOut place)
    (second : right.SpelledOut value) : SpelledOut (.assign left right) (.assign place value)
  /-- The end of a loop stays. -/
  | breakLoop : SpelledOut .breakLoop .breakLoop
  /-- The end of a function. -/
  | returnValue {value other : Phrase} (inner : value.SpelledOut other) :
    SpelledOut (.returnValue value) (.returnValue other)
  /-- Declarations stay, and statements are spelled out one by one. -/
  | block (declared : List Declaration) {body others : List Clause}
    (each : List.Forall₂ SpelledOut body others) :
    SpelledOut (.block declared body) (.block declared others)
  /-- A loop with a test. -/
  | whileLoop {test other : Phrase} {body turn : Clause} (tested : test.SpelledOut other)
    (repeated : SpelledOut body turn) :
    SpelledOut (.whileLoop test body) (.whileLoop other turn)
  /-- A loop with a header. -/
  | forLoop {init start increment step body turn : Clause} {test other : Phrase}
    (begun : SpelledOut init start) (tested : test.SpelledOut other)
    (stepped : SpelledOut increment step) (repeated : SpelledOut body turn) :
    SpelledOut (.forLoop init test increment body) (.forLoop start other step turn)
  /-- A conditional with one branch. -/
  | ifThen {test other : Phrase} {body branch : Clause} (tested : test.SpelledOut other)
    (taken : SpelledOut body branch) : SpelledOut (.ifThen test body) (.ifThen other branch)
  /-- A conditional with two branches. -/
  | ifElse {test other : Phrase} {body branch otherwise fallback : Clause}
    (tested : test.SpelledOut other) (taken : SpelledOut body branch)
    (untaken : SpelledOut otherwise fallback) :
    SpelledOut (.ifElse test body otherwise) (.ifElse other branch fallback)

namespace Clause

/-- A condition is tested in the same way. -/
theorem same_elaborateTest {given : Prop} {test other : Phrase} (tested : test.SpelledOut other) :
    Same given (elaborateTest test) (elaborateTest other) :=
  tested.mirrors.bind fun _ => same_record _

/-- The loops around a body do not matter for what it becomes. -/
theorem same_elaborateTurn {α : Type} {given : Prop} {body turn : Checking α}
    (repeated : ∀ given : Prop, Same given body turn) :
    Same given (elaborateTurn body) (elaborateTurn turn) := by
  have entered {given : Prop} :
      Same given (modify Checker.enterLoop : Checking PUnit) (modify Checker.enterLoop) :=
    same_modify (fun _ => ⟨id, .refl _⟩) fun _ => .enterLoop
  have left {given : Prop} :
      Same given (modify Checker.leaveLoop : Checking PUnit) (modify Checker.leaveLoop) :=
    same_modify (fun _ => ⟨id, .refl _⟩) fun _ => .leaveLoop
  exact entered.bind fun _ => (repeated _).bind fun _ => left.bind fun _ => same_pure _

end Clause

/-- A variable is declared with a type of its own. -/
theorem Declarator.type_proper (specifier : Specifier) (declarator : Declarator) :
    declarator.type specifier ≠ .error := by
  unfold type
  split <;> nofun

/-- Variables are declared in the same way wherever they are. -/
theorem Declaration.same_elaborate {given : Prop} (declaration : Declaration) :
    Same given declaration.elaborate declaration.elaborate := by
  have each (given : Prop) (declarator : Declarator) :
      Same given (declarator.elaborate declaration.specifier)
        (declarator.elaborate declaration.specifier) :=
    (same_declareVariable _ (declarator.type_proper _)).discard
  exact (same_mapM _ each).discard

namespace Clause

mutual

/-- A statement that is checked in silence stays the same when it is spelled out. -/
theorem SpelledOut.same {clause other : Clause} {given : Prop} :
    clause.SpelledOut other → Same given clause.elaborate other.elaborate
  | .evaluate inner => by
    rw [elaborate, elaborate]
    exact inner.mirrors.bind fun _ => same_pure _
  | .assign first second => by
    rw [elaborate, elaborate]
    exact first.mirrors.bind fun _ => second.mirrors.bind fun _ => same_record _
  | .breakLoop => by
    rw [elaborate]
    exact same_get.bind fun _ => same_record _
  | .returnValue inner => by
    rw [elaborate, elaborate]
    exact inner.mirrors.bind fun _ => same_get.bind fun _ => same_record _
  | .block declared each => by
    rw [elaborate, elaborate]
    have declares {given : Prop} : Same given (declared.mapM' Declaration.elaborate)
        (declared.mapM' Declaration.elaborate) :=
      same_mapM declared fun _ => Declaration.same_elaborate
    exact same_openScope.bind fun _ => declares.discard.bind fun _ =>
      (SpelledOut.sameAll each).bind fun _ => same_closeScope.discard.bind fun _ => same_pure _
  | .whileLoop tested repeated => by
    rw [elaborate, elaborate]
    exact (same_elaborateTest tested).bind fun _ =>
      (same_elaborateTurn fun _ => repeated.same).bind fun _ => same_pure _
  | .forLoop begun tested stepped repeated => by
    rw [elaborate, elaborate]
    exact begun.same.bind fun _ => (same_elaborateTest tested).bind fun _ =>
      stepped.same.bind fun _ => (same_elaborateTurn fun _ => repeated.same).bind fun _ =>
        same_pure _
  | .ifThen tested taken => by
    rw [elaborate, elaborate]
    exact (same_elaborateTest tested).bind fun _ => taken.same.bind fun _ => same_pure _
  | .ifElse tested taken untaken => by
    rw [elaborate, elaborate]
    exact (same_elaborateTest tested).bind fun _ => taken.same.bind fun _ =>
      untaken.same.bind fun _ => same_pure _

/-- Statements are spelled out one by one. -/
theorem SpelledOut.sameAll {clauses others : List Clause} {given : Prop} :
    List.Forall₂ SpelledOut clauses others →
      Same given (elaborateAll clauses) (elaborateAll others)
  | .nil => by
    rw [elaborateAll]
    exact same_pure []
  | .cons head tail => by
    rw [elaborateAll, elaborateAll]
    exact head.same.bind fun _ => (SpelledOut.sameAll tail).bind fun _ => same_pure _

end

end Clause

/-! Units. -/

/-- Parameters are declared in a scope that they open, and make the type of a function. -/
theorem Parameters.mirrors_elaborate {given : Prop} (specifier : Specifier) (indirection : Nat)
    (parameters : Parameters) :
    Mirrors given (·.1 ≠ .error) (parameters.elaborate specifier indirection)
      (parameters.elaborate specifier indirection) := by
  have each (given : Prop) (parameter : Parameter) :
      Same given parameter.elaborate parameter.elaborate := by
    have declares {given : Prop} := @same_declareVariable given parameter.name
      (.scalar parameter.specifier parameter.indirection) nofun
    exact declares.discard.bind fun _ => same_pure _
  exact same_openScope.bind fun _ => (same_mapM _ each).bind fun _ => mirrors_pure fun _ => nofun

/-- A function with the statements of its body spelled out. -/
inductive Global.SpelledOut : Global → Global → Prop where
  /-- What has no body stays. -/
  | declaration (specifier : Specifier) (declarators : List GlobalDeclarator) :
    SpelledOut (.declaration specifier declarators) (.declaration specifier declarators)
  /-- The head of a function and its declarations stay. -/
  | definition (function : Definition) {body : List Clause}
    (each : List.Forall₂ Clause.SpelledOut function.body body) :
    SpelledOut (.definition function) (.definition { function with body })

/-- A function that is checked in silence stays the same when it is spelled out. -/
theorem Definition.same_elaborate {given : Prop} (function : Definition) {body : List Clause}
    (each : List.Forall₂ Clause.SpelledOut function.body body) :
    Same given function.elaborate (Definition.elaborate { function with body }) := by
  have begins {given : Prop} (returned : Ty) :
      Same given (modify (·.beginFunction returned) : Checking PUnit)
        (modify (·.beginFunction returned)) :=
    same_modify (fun _ => ⟨id, .refl _⟩) fun _ sound => ⟨sound.proper, sound.opened, sound.rooted⟩
  have declares {given : Prop} : Same given (function.declared.mapM' Declaration.elaborate)
      (function.declared.mapM' Declaration.elaborate) :=
    same_mapM function.declared fun _ => Declaration.same_elaborate
  -- The signature, the number of parameters, the type to return, and the name come before the body.
  refine (function.parameters.mirrors_elaborate _ _).bind fun signature => ?_
  refine same_get.bind fun _ => (begins _).bind fun _ => ?_
  refine (same_defineFunction _ fun known => known.1.1.2).bind fun _ => ?_
  exact declares.discard.bind fun _ => (Clause.SpelledOut.sameAll each).bind fun _ =>
    same_closeScope.bind fun _ => same_pure _

/-- What is left silent was silent before, and stays sound. -/
def Checker.Settles (old new : Checker) : Prop :=
  new.reports = [] → old.reports = [] ∧ (old.Sound → new.Sound)

/-- What settles in two steps settles. -/
theorem Checker.Settles.trans {first second third : Checker} (early : first.Settles second)
    (late : second.Settles third) : first.Settles third := by
  intro silent
  obtain ⟨quiet, keeps⟩ := late silent
  obtain ⟨first, kept⟩ := early quiet
  exact ⟨first, fun sound => keeps (kept sound)⟩

/-- A step that another one mirrors settles. -/
theorem Checking.Mirrors.settles {α : Type} {good : α → Prop} {step other : Checking α}
    (mirrors : Mirrors True good step other) (checker : Checker) :
    checker.Settles (step checker).2 := by
  intro silent
  obtain ⟨grows, same⟩ := mirrors checker
  exact ⟨grows.quiet silent, fun sound => (same trivial sound silent).2.1⟩

/-- A prototype forgets its parameters before its name is declared. -/
theorem GlobalDeclarator.settles (specifier : Specifier) (declarator : GlobalDeclarator)
    (checker : Checker) : checker.Settles (declarator.elaborate specifier checker).2 := by
  cases declarator with
  | object declarator =>
    refine Mirrors.settles (Mirrors.discard (same_declareVariable declarator.name ?_)) checker
    exact declarator.type_proper specifier
  | prototype indirection name parameters =>
    let listed := parameters.elaborate specifier indirection checker
    let closed := listed.2.closeParameters
    -- Closing the parameters reports nothing, whether or not it drops them.
    have closing : closed.reports = listed.2.reports := by
      dsimp only [closed]
      unfold Checker.closeParameters
      dsimp only
      split <;> rfl
    intro silent
    have declared := (closed.extends_declareFunction name listed.1.1).quiet silent
    have quiet : listed.2.reports = [] := closing.symm.trans declared
    obtain ⟨grows, same⟩ := @parameters.mirrors_elaborate True specifier indirection checker
    refine ⟨grows.quiet quiet, fun sound => ?_⟩
    obtain ⟨-, kept, proper⟩ := same trivial sound quiet
    exact kept.closeParameters.declareFunction name proper

/-- Declarators settle one after the other. -/
theorem GlobalDeclarator.settlesAll (specifier : Specifier) (declarators : List GlobalDeclarator)
    (checker : Checker) :
    checker.Settles (declarators.mapM' (GlobalDeclarator.elaborate specifier) checker).2 := by
  induction declarators generalizing checker with
  | nil => exact fun silent => ⟨silent, id⟩
  | cons first rest ih =>
    exact (first.settles specifier checker).trans (ih (first.elaborate specifier checker).2)

namespace Global

/-- What is checked in silence at the top of a unit stays the same when it is spelled out. -/
theorem SpelledOut.same {global other : Global} (spelled : global.SpelledOut other)
    (checker : Checker) : checker.Settles (global.elaborate checker).2 ∧
      (checker.Sound → (global.elaborate checker).2.reports = [] →
        other.elaborate checker = global.elaborate checker) := by
  cases spelled with
  | declaration specifier declarators =>
    exact ⟨GlobalDeclarator.settlesAll specifier declarators checker, fun _ _ => rfl⟩
  | definition function each =>
    -- The function that is handed on is the same.
    have handed : Mirrors True (fun _ => True) _ _ :=
      (function.same_elaborate each).bind fun value => same_pure (some value)
    exact ⟨handed.settles checker, fun sound silent =>
      ((handed checker).2 trivial sound silent).1⟩

/-- A unit that is checked in silence hands on the same functions when it is spelled out. -/
theorem elaborateAll_spelledOut {σ : Type} {consume : Consumer σ}
    (alike : ∀ function (symbols : SymbolTable) output,
      symbols.Alike (consume function symbols output).1)
    {globals others : List Global} (spelled : List.Forall₂ SpelledOut globals others)
    (checker : Checker) (output : σ)
    (silent : (elaborateAll consume globals checker output).1.reports = []) :
    checker.reports = [] ∧ (checker.Sound →
      elaborateAll consume others checker output = elaborateAll consume globals checker output) := by
  -- Silence at the end reaches back over every declaration, and soundness goes forward with it.
  induction spelled generalizing checker output with
  | nil => exact ⟨silent, fun _ => rfl⟩
  | @cons first other rest others head tail ih =>
    obtain ⟨settles, same⟩ := head.same checker
    unfold elaborateAll at silent ⊢
    cases done : first.elaborate checker with
    | mk result reached =>
      rw [done] at settles same silent
      cases result with
      | none =>
        obtain ⟨quiet, equal⟩ := ih reached output silent
        obtain ⟨before, kept⟩ := settles quiet
        refine ⟨before, fun sound => ?_⟩
        rw [same sound quiet]
        exact equal (kept sound)
      | some function =>
        -- The function is handed on before the rest is checked, and only places change.
        let consumed := consume function reached.symbols output
        have placed := alike function reached.symbols output
        obtain ⟨quiet, equal⟩ := ih { reached with symbols := consumed.1 } consumed.2 silent
        obtain ⟨before, kept⟩ := settles quiet
        refine ⟨before, fun sound => ?_⟩
        rw [same sound quiet]
        exact equal ((kept sound).placed placed)

end Global

/-! Sources. -/

/-- Some subscripts of the first source are spelled out in the second one. -/
def SpelledOut (source other : String) : Prop :=
  ∃ tokens others globals spelled, tokensOf source = .ok tokens ∧ tokensOf other = .ok others ∧
    DerivesUnit tokens globals ∧ DerivesUnit others spelled ∧
      List.Forall₂ Global.SpelledOut globals spelled

/-- What is written of a unit at its end. -/
def writtenAtEnd (options : Options) (file : String) (checker : Checker) (output : Generated) :
    Compilation :=
  let generated := if options.checkOnly then output
    else generateGlobals unitScope checker.symbols output
  { assembly := assemblyText options.globalPrefix generated.items
    diagnostics := checker.reports.map (·.diagnostic file) }

/-- Exactly what has been read to its end is compiled. -/
theorem compileTokens_iff {options : Options} {file : String} {tokens : List Token}
    {compilation : Compilation} :
    compileTokens options file tokens = .ok compilation ↔
      let outcome := readUnit (generating options.checkOnly) tokens options.limit {}
      outcome.failure? = none ∧
        writtenAtEnd options file outcome.reader.checker outcome.output = compilation := by
  unfold compileTokens writtenAtEnd
  dsimp only
  split <;> simp_all

/-- Checkers that differ in places only write the same, where both are silent. -/
theorem writtenAtEnd_unplaced (options : Options) (file : String) {checker other : Checker}
    (same : other.unplaced = checker.unplaced) (silent : checker.reports = []) (output : Generated) :
    writtenAtEnd options file other output = writtenAtEnd options file checker output := by
  have symbols := congrArg Checker.symbols same
  have reports := congrArg Checker.reports same
  simp only [Checker.unplaced, silent, List.map_nil, List.map_eq_nil_iff] at symbols reports
  unfold writtenAtEnd
  rw [symbols, reports, silent]

/-- Whatever compiles in silence compiles to the same code when its subscripts are spelled out, unless
that nests too deeply. -/
theorem compile_spelledOut {options : Options} {file source other : String}
    {compilation : Compilation} (spelling : SpelledOut source other)
    (compiled : compile options file source = .ok compilation)
    (silent : compilation.diagnostics = []) :
    (∀ limit found, compile { options with limit } file other = .ok found → found = compilation) ∧
      ∃ enough, ∀ limit, enough ≤ limit →
        compile { options with limit } file other = .ok compilation := by
  obtain ⟨tokens, others, globals, spelled, lexed, relexed, derived, rederived, each⟩ := spelling
  rw [compile_eq_bind, lexed] at compiled
  obtain ⟨done, rfl⟩ := compileTokens_iff.mp compiled
  let outcome := readUnit (generating options.checkOnly) tokens options.limit {}
  have quiet : outcome.reader.checker.reports = [] := List.map_eq_nil_iff.mp silent
  have checked := readUnit_checks (generating options.checkOnly) (ended_tokensOf lexed) derived done
  -- Checking makes the same of both sources.
  have same := (Global.elaborateAll_spelledOut (generating_alike options.checkOnly) each {} {} (by
    rw [checked]
    exact List.map_eq_nil_iff.mpr quiet)).2 Checker.sound_start
  -- So both sources are the same in the end, wherever the second one is read to its end.
  have alike (limit : Nat)
      (read : (readUnit (generating options.checkOnly) others limit {}).failure? = none) :
      compile { options with limit } file other =
        .ok (writtenAtEnd options file outcome.reader.checker outcome.output) := by
    rw [compile_eq_bind, relexed]
    refine compileTokens_iff.mpr ⟨read, ?_⟩
    have rechecked := readUnit_checks (generating options.checkOnly) (ended_tokensOf relexed)
      rederived read
    rw [same, checked, Prod.mk.injEq] at rechecked
    obtain ⟨placed, output⟩ := rechecked
    rw [← output]
    exact writtenAtEnd_unplaced options file placed.symm quiet outcome.output
  refine ⟨fun limit found recompiled => ?_, ?_⟩
  · have read : (readUnit (generating options.checkOnly) others limit {}).failure? = none := by
      rw [compile_eq_bind, relexed] at recompiled
      exact (compileTokens_iff.mp recompiled).1
    exact Except.ok.inj (recompiled.symm.trans (alike limit read))
  · obtain ⟨enough, reads⟩ := readUnit_complete (generating options.checkOnly)
      (ended_tokensOf relexed) rederived {}
    exact ⟨enough, fun limit above => alike limit (reads limit above)⟩

/-- A subscript is accepted exactly on a pointer and an index that is a word, whatever has been checked
before; there it is the tree of what the sum of both leads to, which is not reported either. So sources
that differ only in how their subscripts are spelled compile to the same code. -/
theorem subscripts_spelled_out :
    (∀ (checker : Checker) (left right : Expression),
      let subscript := checker.record (checkSubscript left right)
      (subscript.2.reports = checker.reports ∧ subscript.1.type ≠ .error ↔
        left.promote.type.isPointer = true ∧ right.promote.type = .int) ∧
      (left.promote.type.isPointer = true → right.promote.type = .int →
        followSum left right checker = subscript ∧
          (checker.record (checkAdd left right)).2 = checker ∧ subscript.2 = checker)) ∧
    ∀ {options : Options} {file source other : String} {compilation : Compilation},
      SpelledOut source other → compile options file source = .ok compilation →
        compilation.diagnostics = [] →
          (∀ limit found, compile { options with limit } file other = .ok found →
            found = compilation) ∧
          ∃ enough, ∀ limit, enough ≤ limit →
            compile { options with limit } file other = .ok compilation := by
  refine ⟨fun checker left right => ⟨?_, fun pointer index => ?_⟩, compile_spelledOut⟩
  · rw [← checkSubscript_accepts]
    exact and_congr_left fun _ => Checker.reports_record_iff
  · obtain ⟨summed, -⟩ := checkSubscript_eq pointer index
    obtain ⟨accepted, -⟩ := (checkSubscript_accepts left right).mpr ⟨pointer, index⟩
    rw [Checker.record_quiet summed, Checker.record_quiet accepted]
    exact ⟨(followSum_eq pointer index checker).trans (Checker.record_quiet accepted checker),
      rfl, rfl⟩

/-- Every precedence lets an operand without operators through. -/
theorem Phrase.Derives.loose {tiers : List Tier} {start rest : List Token} {phrase : Phrase}
    (inner : Derives .prefixed start phrase rest) : Derives (.operation tiers) start phrase rest := by
  induction tiers with
  | nil => exact .operand inner
  | cons tier tighter ih => exact .tighter ih

/-- A name stands alone at every precedence. -/
theorem Phrase.Derives.alone {tiers : List Tier} {token : Token} (rest : List Token)
    (spelled : token.kind = .identifier) :
    Derives (.operation tiers) (token :: rest) (.name token.text) rest :=
  .loose (.suffixed (.primary (.name spelled)))

/-- A function that returns an element of a row. -/
def rowSource : String := "int f(int *a, int i) \x7b return a[i]; \x7d"

/-- The function with its subscript spelled out. -/
def sumSource : String := "int f(int *a, int i) \x7b return *(a + i); \x7d"

/-- Tokens of the first line, each with its column. -/
def inFirstLine (pieces : List (TokenKind × String × Nat)) : List Token :=
  pieces.map fun piece => ⟨piece.1, piece.2.1, 1, piece.2.2⟩

/-- The tokens of both functions before the value that they return. -/
def rowHead : List Token :=
  inFirstLine [(.specifier .int, "int", 1), (.identifier, "f", 5), (.leftParen, "(", 6),
    (.specifier .int, "int", 7), (.star, "*", 11), (.identifier, "a", 12), (.comma, ",", 13),
    (.specifier .int, "int", 15), (.identifier, "i", 19), (.rightParen, ")", 20),
    (.leftBrace, "\x7b", 22), (.returnWord, "return", 24)]

/-- The tokens of the subscript. -/
def rowValue : List Token :=
  inFirstLine [(.identifier, "a", 31), (.leftBracket, "[", 32), (.identifier, "i", 33),
    (.rightBracket, "]", 34)]

/-- The tokens of the sum and of what it leads to. -/
def sumValue : List Token :=
  inFirstLine [(.star, "*", 31), (.leftParen, "(", 32), (.identifier, "a", 33), (.plus, "+", 35),
    (.identifier, "i", 37), (.rightParen, ")", 38)]

/-- The tokens behind the value. -/
def rowTail (column : Nat) : List Token :=
  inFirstLine [(.semicolon, ";", column), (.rightBrace, "\x7d", column + 2), (.done, "", column + 3)]

/-- A function of a row and an index that returns a value. -/
def rowUnit (value : Phrase) : List Global :=
  [.definition ⟨.int, 0, "f", ⟨[⟨.int, 1, "a"⟩, ⟨.int, 0, "i"⟩], false⟩, [], [.returnValue value]⟩]

/-- Whatever is returned is derived between the head and the tail of the functions. -/
theorem derivesUnit_row {value : Phrase} {tokens : List Token} {column : Nat}
    (returned : Phrase.Derives .expression (tokens ++ rowTail column) value (rowTail column)) :
    DerivesUnit (rowHead ++ (tokens ++ rowTail column)) (rowUnit value) := by
  have body : Run Clause.Derives (⟨.returnWord, "return", 1, 24⟩ :: (tokens ++ rowTail column))
      [.returnValue value] (rowTail column).tail :=
    .cons (.returnValue rfl returned rfl) (.nil _)
  -- The head declares a pointer and an index, and all of it stands on one line.
  have parameters : Parameters.Derives (rowHead.drop 3 ++ (tokens ++ rowTail column))
      ⟨[⟨.int, 1, "a"⟩, ⟨.int, 0, "i"⟩], false⟩ (rowHead.drop 9 ++ (tokens ++ rowTail column)) :=
    .closed (.more (.scalar rfl (.more rfl (.none _)) rfl) rfl (.one (.scalar rfl (.none _) rfl)))
  exact ⟨⟨.done, "", 1, column + 3⟩, rfl,
    .cons (.definition rfl (.none _) rfl rfl parameters rfl rfl (.nil _) body rfl) (.nil _)⟩

/-- Both functions compile in silence to the same code. -/
theorem subscripts_spelled_out_row : ∃ compilation, SpelledOut rowSource sumSource ∧
    compile {} "row.c" rowSource = .ok compilation ∧ compilation.diagnostics = [] ∧
      compile {} "row.c" sumSource = .ok compilation := by
  have reads : readsSilently {} rowSource = true := by cbv
  obtain ⟨compilation, compiled, silent⟩ := compile_silent reads "row.c"
  have again : readsSilently {} sumSource = true := by cbv
  obtain ⟨found, recompiled, -⟩ := compile_silent again "row.c"
  have row : tokensOf rowSource = .ok (rowHead ++ (rowValue ++ rowTail 35)) := by cbv
  have sum : tokensOf sumSource = .ok (rowHead ++ (sumValue ++ rowTail 39)) := by cbv
  have element : Phrase.Derives .expression (rowValue ++ rowTail 35)
      (.subscript (.name "a") (.name "i")) (rowTail 35) :=
    .loose (.suffixed (.subscript (.primary (.name rfl)) rfl (.alone _ rfl) rfl))
  have follows : Phrase.Derives .expression (sumValue ++ rowTail 39)
      (.unary .dereference (.binary .plus (.name "a") (.name "i"))) (rowTail 39) :=
    .loose (.unary rfl (fun _ => rfl) (.suffixed (.primary (.parenthesised rfl
      (.tighter (.tighter (.tighter (.tighter (.binary (.alone _ rfl) rfl rfl (.alone _ rfl)))))) rfl))))
  have spelling : SpelledOut rowSource sumSource :=
    ⟨_, _, _, _, row, sum, derivesUnit_row element, derivesUnit_row follows,
      .cons (.definition _ (.cons (.returnValue (.sum (.name "a") (.name "i"))) .nil)) .nil⟩
  obtain ⟨-, compiles⟩ := subscripts_spelled_out
  have same := (compiles spelling compiled silent).1 defaultLimit found recompiled
  exact ⟨compilation, spelling, compiled, silent, same ▸ recompiled⟩

end SmallC
