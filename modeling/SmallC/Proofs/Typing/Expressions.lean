import SmallC.Grammar.Expressions
import SmallC.Proofs.Typing.Reading

/-! Every expression that is read in silence is typed, whatever production it comes from. -/

namespace SmallC

/-- Every operator of every precedence has a sound rule. -/
theorem Tier.rule_sound {tier : Tier} {kind : TokenKind}
    {rule : Expression → Expression → Verdict Expression} (found : tier.rule? kind = some rule) :
    SoundRule rule := by
  -- Every token of a tier has a rule, each sound on its own.
  unfold Tier.rule? at found
  split at found <;> cases found
  · exact checkOr_sound
  · exact checkAnd_sound
  · exact checkCompare_sound _
  · exact checkCompare_sound _
  · exact checkCompare_sound _
  · exact checkCompare_sound _
  · exact checkCompare_sound _
  · exact checkCompare_sound _
  · exact checkAdd_sound
  · exact checkSubtract_sound
  · exact checkMultiply_sound
  · exact checkDivide_sound
  · exact checkRemainder_sound

namespace Checker

/-- The symbol has a proper type, unless something has been reported. -/
def Names (checker : Checker) (symbol : SymbolId) : Prop :=
  checker.reports = [] → checker.symbols.typeOf symbol ≠ .error

/-- A name of a proper type makes a typed expression. -/
theorem Names.identifier {checker : Checker} {symbol : SymbolId} (named : checker.Names symbol) :
    checker.Grants (checker.identifier symbol) :=
  fun silent => .identifier symbol rfl (named silent)

/-- A symbol that has been named stays so. -/
theorem Names.later {old new : Checker} {symbol : SymbolId} (named : old.Names symbol)
    (grows : old.Grows new) : new.Names symbol := by
  intro silent
  have proper := named (grows.quiet silent)
  rwa [grows.keeps.typeOf proper]

end Checker

namespace Reading

/-- Typing lasts. -/
theorem lasting_grants : Lasting fun expression checker => checker.Grants expression :=
  fun _ _ _ extended granted => granted.later extended.toGrows

/-- Reading a step whose expressions are typed if nothing is reported. -/
abbrev Yields (start : Checker) (action : Reading Expression) : Prop :=
  Carries start action fun expression checker => checker.Grants expression

variable {start : Checker}

/-- A check that is sound yields a typed node. -/
theorem yields_check {verdict : Verdict Expression}
    (sound : start.reports = [] → verdict.problem? = none →
      verdict.node.Typed start.symbols) : Yields start (check verdict) := by
  refine .act (Checker.extends_record verdict) (fun _ kept => kept.record verdict) ?_
  intro checker here _ silent
  have extended := Checker.extends_record verdict checker
  have quiet := here.extends.quiet (extended.quiet silent)
  exact ((sound quiet (Checker.problem_of_record silent)).weaken here.extends.keeps).weaken
    extended.keeps

/-- A typed expression may be returned. -/
theorem yields_pure {expression : Expression} (granted : start.Grants expression) :
    Yields start (pure expression) :=
  .pure lasting_grants granted

/-- Looking for a type in parentheses is idle. -/
theorem idle_startsTypeName : Idle startsTypeName :=
  idle_get.bind fun _ => idle_pure _

/-- Reading a type in parentheses is idle. -/
theorem idle_typeName : Idle typeName :=
  (idle_expect _).discard.bind fun _ => idle_specifier.bind fun _ => idle_stars.bind fun _ =>
    (idle_expect _).discard.bind fun _ => idle_pure _

/-- A type in parentheses is scalar. -/
theorem typeName_scalar : Carries start typeName fun type _ =>
    ∃ specifier indirection, type = .scalar specifier indirection := by
  refine .idle (idle_expect _).discard fun _ => .idle idle_specifier fun specifier =>
    .idle idle_stars fun indirection => .idle (idle_expect _).discard fun _ => ?_
  exact .pure (fun _ _ _ _ scalar => scalar) ⟨specifier, indirection, rfl⟩

/-- Resolving a name gives a symbol of a proper type. -/
theorem resolve_names (name : String) : Carries start (act (Checker.resolve name))
    fun symbol checker => checker.Names symbol :=
  .act (Checker.extends_resolve name) (fun _ sound => sound.resolve name) fun _ _ sound silent =>
    Checker.typeOf_resolve sound silent

/-- A typed operand behind a sign is typed with the sign. -/
theorem yields_unary {operand : Reading Expression} {judge : Expression → Verdict Expression}
    (below : Yields start operand) (sound : ∀ {operand symbols}, operand.Typed symbols →
      (judge operand).problem? = none → (judge operand).node.Typed symbols) :
    Yields start (do discard advance; check (judge (← operand))) := by
  refine .idle idle_advance.discard fun _ => .bind below ?_
  exact fun operand _ _ granted => yields_check fun silent => sound (granted silent)

/-- A step of a typed operand is typed, and so is what follows. -/
theorem yields_stepped {operand : Expression} {levels : Nat} (op : StepOp)
    (granted : start.Grants operand) (further : ∀ {later : Checker} {stepped : Expression},
      later.Grants stepped → Yields later (furtherSuffixes stepped levels)) :
    Yields start (do
      let stepped ← check (checkStep op operand)
      discard advance
      furtherSuffixes stepped levels) := by
  refine .bind (yields_check fun silent => checkStep_typed op (granted silent)) ?_
  exact fun stepped later _ whole => .idle idle_advance.discard fun _ => further whole

/-- A call of a named symbol with typed arguments is typed. -/
theorem yields_call {symbol : SymbolId} {arguments : List Expression} (named : start.Names symbol)
    (granted : ∀ argument ∈ arguments, start.Grants argument) :
    Yields start (act (Checker.call symbol arguments)) := by
  -- The arguments were granted before the callee was recorded, and silence carries over.
  refine .act (fun checker => Checker.extends_record _ checker) (fun _ sound => sound.record _) ?_
  intro checker here _ silent
  have extended := Checker.extends_record
    (checkCall symbol (checker.symbols.typeOf symbol) arguments) checker
  have quiet := extended.quiet silent
  have typed : ∀ argument ∈ arguments, argument.Typed checker.symbols := fun argument member =>
    (granted argument member).later here.extends.toGrows quiet
  have proper := (named.later here.extends.toGrows) quiet
  exact (checkCall_typed typed proper (Checker.problem_of_record silent)).weaken extended.keeps

/-- Arguments that are typed one by one are typed together. -/
theorem yields_arguments {argument : Reading Expression}
    (each : ∀ checker, start.Extends checker → Yields checker argument) :
    Carries start (callArguments argument) fun arguments checker =>
      ∀ argument ∈ arguments, checker.Grants argument := by
  refine .idle idle_kind fun found => ?_
  split
  · refine .pure ?_ (by simp)
    intro _ _ _ extended all argument member
    exact (all argument member).later extended.toGrows
  · exact .commaSeparated lasting_grants each

mutual

/-- An expression that is read in silence is typed. -/
theorem yields_expression (start : Checker) : (levels : Nat) → Yields start (expression levels)
  | 0 => by
    unfold expression
    exact .tooDeep
  | levels + 1 => by
    unfold expression
    exact yields_operation start Tier.all levels
termination_by levels => (levels, 0)

/-- Operands joined by operators are typed. -/
theorem yields_operation (start : Checker) : (tiers : List Tier) → (levels : Nat) →
    Yields start (operation tiers levels)
  | [], levels => by
    unfold operation
    exact yields_prefixed start levels
  | tier :: tighter, levels => by
    unfold operation
    exact .bind (yields_operation start tighter levels) fun left checker _ granted =>
      yields_furtherOperands checker tier tighter levels granted
termination_by tiers levels => (levels, tiers.length + 4)

/-- Further operands extend a typed one to a typed whole. -/
theorem yields_furtherOperands (start : Checker) (tier : Tier) (tighter : List Tier)
    {left : Expression} (levels : Nat) (granted : start.Grants left) :
    Yields start (furtherOperands tier tighter left levels) := by
  unfold furtherOperands
  refine .idle idle_kind fun found => ?_
  cases ruled : tier.rule? found with
  | none => exact yields_pure granted
  | some rule =>
    match levels with
    | 0 => exact .tooDeep
    | levels + 1 =>
      refine .idle idle_advance.discard fun _ => ?_
      refine .bind (yields_operation start tighter levels) fun right checker extended second => ?_
      -- Both operands are typed by now, so the rule of the sign joins them.
      have first := granted.later extended.toGrows
      refine .bind (yields_check fun silent fine =>
        Tier.rule_sound ruled _ _ _ (first silent) (second silent) fine) ?_
      exact fun joined later _ whole => yields_furtherOperands later tier tighter levels whole
termination_by (levels, 0)

/-- An operand with the operators before it is typed. -/
theorem yields_prefixed (start : Checker) : (levels : Nat) → Yields start (prefixed levels)
  | 0 => by
    unfold prefixed
    exact .tooDeep
  | levels + 1 => by
    unfold prefixed
    refine .idle idle_startsTypeName fun typed => .idle idle_kind fun found => ?_
    have operand := yields_prefixed start levels
    cases found with
    | bang => exact yields_unary operand checkNot_typed
    | minus => exact yields_unary operand checkNegate_typed
    | star => exact yields_unary operand checkDereference_typed
    | ampersand => exact yields_unary operand checkAddress_typed
    | sizeofWord =>
      refine .idle idle_advance.discard fun _ => .idle idle_startsTypeName fun named => ?_
      split
      · exact .idle idle_typeName fun type => yields_pure fun _ => sizeofType_typed type
      · refine .bind operand ?_
        exact fun operand _ _ _ => yields_check fun _ _ => sizeofType_typed _
    | leftParen =>
      dsimp only
      split
      · refine .bind typeName_scalar fun target checker _ scalar => ?_
        obtain ⟨specifier, indirection, rfl⟩ := scalar
        refine .bind (yields_prefixed checker levels) ?_
        exact fun operand _ _ granted => yields_check fun silent => checkCast_typed (granted silent)
      · exact yields_suffixed start levels
    | _ => exact yields_suffixed start levels
termination_by levels => (levels, 3)

/-- An operand with the operators after it is typed. -/
theorem yields_suffixed (start : Checker) (levels : Nat) : Yields start (suffixed levels) := by
  unfold suffixed
  exact .bind (yields_primary start levels) fun operand checker _ granted =>
    yields_furtherSuffixes checker levels granted
termination_by (levels, 2)

/-- Operators after a typed operand make a typed whole. -/
theorem yields_furtherSuffixes (start : Checker) {operand : Expression} (levels : Nat)
    (granted : start.Grants operand) : Yields start (furtherSuffixes operand levels) := by
  -- A subscript is read deeper; a step is checked where it stands; then more may follow.
  unfold furtherSuffixes
  refine .idle idle_kind fun found => ?_
  cases found with
  | leftBracket =>
    match levels with
    | 0 => exact .tooDeep
    | levels + 1 =>
      refine .idle idle_advance.discard fun _ => ?_
      refine .bind (yields_expression start levels) fun index checker extended second => ?_
      have first := granted.later extended.toGrows
      refine .bind (yields_check fun silent fine =>
        checkSubscript_sound _ _ _ (first silent) (second silent) fine) ?_
      exact fun element later _ whole => .idle (idle_expect _).discard fun _ =>
        yields_furtherSuffixes later levels whole
  | increment =>
    match levels with
    | 0 => exact .tooDeep
    | levels + 1 =>
      exact yields_stepped .increment granted fun whole => yields_furtherSuffixes _ levels whole
  | decrement =>
    match levels with
    | 0 => exact .tooDeep
    | levels + 1 =>
      exact yields_stepped .decrement granted fun whole => yields_furtherSuffixes _ levels whole
  | _ => exact yields_pure granted
termination_by (levels, 0)

/-- An operand without operators is typed. -/
theorem yields_primary (start : Checker) (levels : Nat) : Yields start (primary levels) := by
  unfold primary
  refine .idle idle_kind fun found => ?_
  cases found with
  | leftParen =>
    refine .idle idle_advance.discard fun _ => .bind (yields_expression start levels) ?_
    exact fun inner _ _ granted => .idle (idle_expect _).discard fun _ => yields_pure granted
  | character => exact .idle idle_advance fun token => yields_pure fun _ => .integer _
  | string => exact .idle idle_advance fun token => yields_pure fun _ => .string _
  | integer => exact .idle idle_wholeNumber fun value => yields_pure fun _ => .integer _
  | real => exact .idle idle_advance fun token => yields_pure fun _ => .real _
  | identifier =>
    refine .idle idle_name fun name => .bind (resolve_names name) fun symbol checker _ named => ?_
    refine .idle idle_kind fun follows => ?_
    split
    · refine .idle idle_advance.discard fun _ => ?_
      refine .bind (yields_arguments fun later _ => yields_expression later levels) ?_
      intro arguments later extended granted
      refine .bind (yields_call (named.later extended.toGrows) granted) ?_
      exact fun call _ _ whole => .idle (idle_expect _).discard fun _ => yields_pure whole
    · refine .get fun reader here => yields_pure ?_
      intro silent
      -- The reader's checker declares what the one at hand does.
      obtain ⟨position, moved⟩ := here
      rw [moved]
      exact named.identifier silent
  | _ => exact .unexpected
termination_by (levels, 1)

end

end Reading

end SmallC
