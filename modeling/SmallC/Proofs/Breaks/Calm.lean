import SmallC.Proofs.Derivations.Boundaries
import SmallC.Proofs.Report.Adding
import SmallC.Proofs.Report.Judging

/-! What leaves no loop: phrases, declarations and signatures have no word for it, and checking them
neither reports that there is no loop nor changes how many there are. -/

namespace SmallC

/-! Words. -/

/-- The positions behind the words that leave a loop, in order. -/
def behindBreaks : List Token → List Position
  | word :: next :: rest =>
    if word.kind = .breakWord then next.position :: behindBreaks (next :: rest)
    else behindBreaks (next :: rest)
  | _ => []

/-- Between the start and the rest no word leaves a loop. -/
def Plain (start rest : List Token) : Prop :=
  behindBreaks start = behindBreaks rest

namespace Plain

variable {start middle rest : List Token}

theorem trans (first : Plain start middle) (second : Plain middle rest) : Plain start rest :=
  Eq.trans first second

/-- A token of another kind leaves no loop. -/
theorem token {word : Token} {kind : TokenKind} (spelled : word.kind = kind)
    (other : kind ≠ .breakWord) : Plain (word :: rest) rest := by
  unfold Plain
  cases rest with
  | nil => rfl
  | cons next rest => rw [behindBreaks, if_neg (spelled ▸ other)]

/-- A token of another kind leaves no loop, and neither does what comes after it. -/
theorem after {word : Token} {kind : TokenKind} (spelled : word.kind = kind)
    (other : kind ≠ .breakWord) (plain : Plain start rest) : Plain (word :: start) rest :=
  (token spelled other).trans plain

section Combinators

variable {α : Type} {item : List Token → α → List Token → Prop}

theorem run (each : ∀ start thing rest, item start thing rest → Plain start rest)
    {things : List α} (run : Run item start things rest) : Plain start rest := by
  induction run with
  | nil => rfl
  | cons head tail ih => exact (each _ _ _ head).trans ih

theorem commas (each : ∀ start thing rest, item start thing rest → Plain start rest)
    {things : List α} (listed : Commas item start things rest) : Plain start rest := by
  induction listed with
  | one head => exact each _ _ _ head
  | more head separated tail ih => exact (each _ _ _ head).trans (after separated nofun ih)

end Combinators

end Plain

/-! Types and expressions. -/

theorem Stars.plain {start rest : List Token} {count : Nat} (stars : Stars start count rest) :
    Plain start rest := by
  induction stars with
  | none => rfl
  | more starred others ih => exact .after starred nofun ih

theorem TypeName.plain {start rest : List Token} {type : Ty} (named : TypeName start type rest) :
    Plain start rest := by
  obtain ⟨opens, specified, stars, closes⟩ := named
  exact .after opens nofun (.after specified nofun (stars.plain.trans (.token closes nofun)))

theorem UnarySign.kind_ne_break {sign : UnarySign} {kind : TokenKind}
    (spelled : sign.kind? = some kind) : kind ≠ .breakWord := by
  rintro rfl
  cases sign <;> cases spelled

theorem Constant.plain {token : Token} {value : Expression} (constant : Constant token value)
    (rest : List Token) : Plain (token :: rest) rest := by
  cases constant with
  | character spelled | string spelled | integer spelled | real spelled =>
    exact .token spelled nofun

namespace Phrase

mutual

theorem Derives.plain {rung : Rung} {start rest : List Token} {phrase : Phrase} :
    Derives rung start phrase rest → Plain start rest
  | @Derives.binary _ _ _ _ _ _ _ sign _ first spelled _ second =>
    first.plain.trans (.after spelled (by cases sign <;> nofun) second.plain)
  | .tighter inner | .operand inner | .suffixed inner | .primary inner => inner.plain
  | .unary spelled _ inner => .after rfl (UnarySign.kind_ne_break spelled) inner.plain
  | .sizeofType spelled named => .after spelled nofun named.plain
  | .cast named inner => named.plain.trans inner.plain
  | .subscript first opens second closes =>
    first.plain.trans (.after opens nofun (second.plain.trans (.token closes nofun)))
  | @Derives.step op _ _ _ _ first spelled =>
    first.plain.trans (.token spelled (by cases op <;> nofun))
  | .parenthesised opens inner closes =>
    .after opens nofun (inner.plain.trans (.token closes nofun))
  | .literal constant => constant.plain _
  | .name spelled => .token spelled nofun
  | .callNothing spelled opens closes =>
    .after spelled nofun (.after opens nofun (.token closes nofun))
  | .call spelled opens passed closes =>
    .after spelled nofun (.after opens nofun
      ((Derives.plain_commas passed).trans (.token closes nofun)))

theorem Derives.plain_commas {start rest : List Token} {phrases : List Phrase} :
    Commas (Derives .expression) start phrases rest → Plain start rest
  | .one head => head.plain
  | .more head separated tail =>
    head.plain.trans (.after separated nofun (Derives.plain_commas tail))

end

end Phrase

/-! Declarations. -/

theorem Declarator.Derives.plain {specifier : Specifier} {start rest : List Token}
    {declarator : Declarator} (derived : declarator.Derives specifier start rest) :
    Plain start rest := by
  cases derived with
  | scalar stars named => exact stars.plain.trans (.token named nofun)
  | array stars named opens spelled _ _ closes _ =>
    exact stars.plain.trans (.after named nofun (.after opens nofun (.after spelled nofun
      (.token closes nofun))))

theorem Declaration.Derives.plain {start rest : List Token} {declaration : Declaration}
    (derived : declaration.Derives start rest) : Plain start rest := by
  obtain ⟨specified, declared, closes⟩ := derived
  have listed := Plain.commas (fun _ _ _ => Declarator.Derives.plain) declared
  exact .after specified nofun (listed.trans (.token closes nofun))

theorem Parameter.Derives.plain {start rest : List Token} {parameter : Parameter}
    (derived : parameter.Derives start rest) : Plain start rest := by
  obtain ⟨specified, stars, named⟩ := derived
  exact .after specified nofun (stars.plain.trans (.token named nofun))

theorem Parameters.Derives.plain {start rest : List Token} {parameters : Parameters}
    (derived : parameters.Derives start rest) : Plain start rest := by
  cases derived with
  | nothing spelled => exact .token spelled nofun
  | closed listed => exact .commas (fun _ _ _ => Parameter.Derives.plain) listed
  | variadic listed separated dotted =>
    have each := Plain.commas (fun _ _ _ => Parameter.Derives.plain) listed
    exact each.trans (.after separated nofun (.token dotted nofun))

theorem GlobalDeclarator.Derives.plain {specifier : Specifier} {start rest : List Token}
    {declarator : GlobalDeclarator} (derived : declarator.Derives specifier start rest) :
    Plain start rest := by
  cases derived with
  | object derived => exact derived.plain
  | prototype stars named opens derived closes =>
    exact stars.plain.trans (.after named nofun (.after opens nofun
      (derived.plain.trans (.token closes nofun))))

/-! Statements without statements inside. -/

theorem Clause.Assigns.plain {start rest : List Token} {clause : Clause}
    (assigns : Assigns start clause rest) : Plain start rest := by
  cases assigns with
  | evaluate derived => exact derived.plain
  | assign first spelled second => exact first.plain.trans (.after spelled nofun second.plain)

theorem Clause.Condition.plain {start rest : List Token} {test : Phrase}
    (tests : Condition start test rest) : Plain start rest := by
  obtain ⟨opens, derived, closes⟩ := tests
  exact .after opens nofun (derived.plain.trans (.token closes nofun))

/-! Checking. -/

/-- The same loops are open, and what has been reported since is not that there is none. -/
structure Checker.Calm (old new : Checker) : Prop where
  /-- As many loops are open. -/
  loops : new.loops = old.loops
  /-- Other problems may have been reported. -/
  adds : Adds (· ≠ .breakOutsideLoop) old new

/-- A step that leaves any checker calm. -/
def Checking.Calm {α : Type} (step : Checking α) : Prop :=
  ∀ checker : Checker, checker.Calm (step checker).2

namespace Checking

variable {α β : Type} {step : Checking α}

theorem calm_pure (value : α) : Calm (pure value) :=
  fun _ => ⟨rfl, Checker.adds_of_eq rfl rfl⟩

/-- One step after the other. -/
theorem Calm.bind (first : Calm step) {next : α → Checking β} (second : ∀ value, Calm (next value)) :
    Calm (step >>= next) := by
  intro checker
  have early := first checker
  have late := second (step checker).1 (step checker).2
  exact ⟨late.loops.trans early.loops, early.adds.trans late.adds⟩

theorem Calm.discard (first : Calm step) : Calm (discard step) :=
  fun checker => first checker

theorem calm_get : Calm (get : Checking Checker) :=
  fun _ => ⟨rfl, Checker.adds_of_eq rfl rfl⟩

theorem calm_record {verdict : Verdict α} (judged : verdict.Judged) :
    Calm (Checker.record verdict) := by
  intro checker
  refine ⟨?_, Checker.adds_record (fun problem found => ?_) checker⟩
  · unfold Checker.record
    cases verdict.problem? <;> rfl
  · rintro rfl
    cases judged _ found

theorem calm_resolve (name : String) : Calm (Checker.resolve name) := by
  refine fun checker => ⟨?_, Checker.adds_resolve nofun checker⟩
  unfold Checker.resolve
  split <;> rfl

theorem calm_declareVariable (name : String) (type : Ty) : Calm (Checker.declareVariable name type) := by
  refine fun checker => ⟨?_, Checker.adds_declareVariable nofun nofun type checker⟩
  unfold Checker.declareVariable
  dsimp only
  repeat' split
  all_goals rfl

theorem calm_declareFunction (name : String) (type : Ty) : Calm (Checker.declareFunction name type) := by
  refine fun checker => ⟨?_, Checker.adds_declareFunction nofun type checker⟩
  unfold Checker.declareFunction
  repeat' split
  all_goals rfl

theorem calm_defineFunction (name : String) (type : Ty) : Calm (Checker.defineFunction name type) := by
  have declares (checker : Checker) :
      (Checker.declareDefined name type checker).2.loops = checker.loops :=
    (calm_declareFunction name type { checker with defined := name :: checker.defined }).loops
  refine fun checker => ⟨?_, Checker.adds_defineFunction nofun nofun type checker⟩
  -- A second definition changes nothing but the reports, and the first one is declared.
  unfold Checker.defineFunction
  split
  · dsimp only
    split
    · rfl
    · exact declares _
  · exact declares checker

theorem calm_openScope : Calm Checker.openScope :=
  fun _ => ⟨rfl, Checker.adds_of_eq rfl rfl⟩

theorem calm_closeScope : Calm Checker.closeScope :=
  fun _ => ⟨rfl, Checker.adds_of_eq rfl rfl⟩

theorem calm_mapM {γ : Type} {items : List γ} {each : γ → Checking α} (calm : ∀ item, Calm (each item)) :
    Calm (items.mapM' each) := by
  induction items with
  | nil => exact calm_pure []
  | cons first rest ih => exact (calm first).bind fun _ => ih.bind fun _ => calm_pure _

end Checking

namespace Phrase

open Checking

mutual

/-- Phrases leave the checker calm. -/
theorem calm_elaborate : (phrase : Phrase) → phrase.elaborate.Calm
  | .literal value => by
    unfold elaborate
    exact calm_pure _
  | .name spelling => by
    unfold elaborate
    exact (calm_resolve spelling).bind fun _ => calm_get.bind fun _ => calm_pure _
  | .call callee arguments => by
    unfold elaborate
    refine (calm_resolve callee).bind fun symbol => (calm_elaborateAll arguments).bind fun passed => ?_
    exact fun checker => calm_record (judged_checkCall _ _ _) checker
  | .unary sign operand => by
    unfold elaborate
    exact (calm_elaborate operand).bind fun value => calm_record (sign.judged value)
  | .sizeofType type => by
    unfold elaborate
    exact calm_pure _
  | .subscript array index => by
    unfold elaborate
    exact (calm_elaborate array).bind fun _ => (calm_elaborate index).bind fun _ =>
      calm_record (judged_checkSubscript _ _)
  | .step op operand => by
    unfold elaborate
    exact (calm_elaborate operand).bind fun _ => calm_record (judged_checkStep _ _)
  | .binary sign left right => by
    unfold elaborate
    exact (calm_elaborate left).bind fun _ => (calm_elaborate right).bind fun _ =>
      calm_record (sign.judged _ _)

theorem calm_elaborateAll : (phrases : List Phrase) → (elaborateAll phrases).Calm
  | [] => by
    unfold elaborateAll
    exact calm_pure []
  | first :: rest => by
    unfold elaborateAll
    exact (calm_elaborate first).bind fun _ => (calm_elaborateAll rest).bind fun _ => calm_pure _

end

end Phrase

open Checking

theorem Declarator.calm_elaborate (specifier : Specifier) (declarator : Declarator) :
    (declarator.elaborate specifier).Calm :=
  (calm_declareVariable _ _).discard

theorem Declaration.calm_elaborate (declaration : Declaration) : declaration.elaborate.Calm :=
  (calm_mapM (Declarator.calm_elaborate declaration.specifier)).discard

theorem Parameters.calm_elaborate (specifier : Specifier) (indirection : Nat)
    (parameters : Parameters) : (parameters.elaborate specifier indirection).Calm := by
  have each (parameter : Parameter) : parameter.elaborate.Calm :=
    (calm_declareVariable _ _).discard.bind fun _ => calm_pure _
  exact calm_openScope.bind fun _ => (calm_mapM each).bind fun _ => calm_pure _

theorem GlobalDeclarator.calm_elaborate (specifier : Specifier) (declarator : GlobalDeclarator) :
    (declarator.elaborate specifier).Calm := by
  cases declarator with
  | object declarator => exact declarator.calm_elaborate specifier
  | prototype indirection name parameters =>
    -- Forgetting the parameters empties a scope, which is no matter of loops.
    have forgets : Calm (modify Checker.closeParameters : Checking Unit) := by
      refine fun checker => ⟨?_, Checker.adds_closeParameters checker⟩
      show checker.closeParameters.loops = checker.loops
      unfold Checker.closeParameters
      dsimp only
      split <;> rfl
    exact (parameters.calm_elaborate specifier indirection).bind fun signature =>
      forgets.bind fun _ => (calm_declareFunction _ _).discard

namespace Clause

theorem calm_elaborateTest (test : Phrase) : (elaborateTest test).Calm :=
  (Phrase.calm_elaborate test).bind fun _ => calm_record (judged_checkTest _)

theorem Assigns.calm {start rest : List Token} {clause : Clause} (assigns : Assigns start clause rest) :
    clause.elaborate.Calm := by
  cases assigns with
  | evaluate =>
    unfold elaborate
    exact (Phrase.calm_elaborate _).bind fun _ => calm_pure _
  | assign =>
    unfold elaborate
    exact (Phrase.calm_elaborate _).bind fun _ => (Phrase.calm_elaborate _).bind fun _ =>
      calm_record (judged_checkAssign _ _)

end Clause

/-! Globals without a body. -/

theorem Global.plain_declaration {start rest : List Token} {specifier : Specifier}
    {declarators : List GlobalDeclarator}
    (derived : Global.Derives start (.declaration specifier declarators) rest) : Plain start rest := by
  obtain ⟨specified, declared, closes⟩ := derived
  have listed := Plain.commas (fun _ _ _ => GlobalDeclarator.Derives.plain) declared
  exact .after specified nofun (listed.trans (.token closes nofun))

theorem Global.calm_declaration (specifier : Specifier) (declarators : List GlobalDeclarator) :
    (Global.declaration specifier declarators).elaborate.Calm :=
  (calm_mapM (GlobalDeclarator.calm_elaborate specifier)).discard.bind fun _ => calm_pure _

end SmallC
