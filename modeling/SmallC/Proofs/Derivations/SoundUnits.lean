import SmallC.Proofs.Derivations.Boundaries
import SmallC.Proofs.Derivations.Sound

/-! Whatever is read of declarations, statements and units has a derivation, and reading has
checked what the derivation says. -/

namespace SmallC

namespace Reading

/-! Declarations. -/

/-- The name is declared with whatever follows it. -/
theorem leads_declareObject (specifier : Specifier) {indirection : Nat} {start tokens : List Token}
    {name : Token} {checker : Checker} (stars : Stars start indirection (name :: tokens))
    (named : name.kind = .identifier) (ended : Ended tokens) :
    Leads (declareObject specifier indirection name.text) ⟨tokens, checker⟩
      (Yields (Declarator.Derives specifier) (Declarator.elaborate specifier) ⟨start, checker⟩) := by
  -- Both forms declare the name at the end.
  have declare (length? : Option Nat) {rest : List Token}
      (derived : Declarator.Derives specifier start ⟨indirection, name.text, length?⟩ rest)
      (ended : Ended rest) :
      Leads (Functor.discard (act (Checker.declareVariable name.text
        (Declarator.type specifier ⟨indirection, name.text, length?⟩)))) ⟨rest, checker⟩
        (Yields (Declarator.Derives specifier) (Declarator.elaborate specifier)
          ⟨start, checker⟩) := by
    refine .discard (.act (Checker.blind_declareVariable _ _) fun symbol known declared => ?_)
    exact ⟨_, derived, Checking.discard_eq declared, ended⟩
  unfold declareObject variableType
  rw [bind_assoc]
  refine .bind (.kind ?_)
  split
  · unfold arrayType arrayLength
    simp only [bind_assoc]
    refine .bind (.discard (.expect ended (by simp) ?_))
    rintro opening rest rfl opens ended
    refine .bind (.get fun _ _ => .bind (.get fun _ _ => .bind (leads_wholeNumber ended ?_)))
    rintro number length rest rfl spelled fits ended
    split
    · exact .bind (.throw _)
    · next nonempty =>
      refine .bind (.pure (.bind (.discard (.expect ended (by simp) ?_))))
      rintro closing rest rfl closes ended
      unfold Ty.sizedArray?
      by_cases small : length * Ty.elementSize specifier indirection ≤ Ty.objectCeiling
      · rw [if_pos small]
        refine .bind (.pure (declare (some length) ?_ ended))
        exact .array stars named opens spelled fits nonempty closes small
      · rw [if_neg small]
        exact .bind (.throw _)
  · exact .bind (.pure (declare none (.scalar stars named) ended))

theorem sound_declarator (specifier : Specifier) : Sound (declarator specifier)
    (Declarator.Derives specifier) (Declarator.elaborate specifier) := by
  rintro ⟨tokens, checker⟩ ended
  refine .bind (leads_stars ended ?_)
  intro indirection middle stars ended
  refine .bind (leads_name ended ?_)
  rintro name rest rfl named ended
  exact leads_declareObject specifier stars named ended

theorem sound_declaration : Sound declaration Declaration.Derives Declaration.elaborate := by
  rintro ⟨tokens, checker⟩ ended
  refine .bind (leads_specifier ended ?_)
  rintro word specifier rest rfl specified ended
  refine .bind (((sound_commaSeparated (sound_declarator specifier)).discard _ ended).weaken ?_)
  rintro _ ⟨rest, known⟩ ⟨declarators, declared, checked, ended⟩
  refine .discard (.expect ended (by simp) ?_)
  rintro closing rest rfl closes ended
  exact ⟨⟨specifier, declarators⟩, .shared specified declared closes, checked, ended⟩

theorem sound_declarations : Sound declarations (Run Declaration.Derives)
    fun declared => Functor.discard (declared.mapM' Declaration.elaborate) :=
  Sound.discard (sound_many fun start ended _ => sound_declaration start ended)

/-! Parameters. -/

theorem sound_parameter : Sound parameter Parameter.Derives Parameter.elaborate := by
  rintro ⟨tokens, checker⟩ ended
  refine .bind (leads_specifier ended ?_)
  rintro word specifier rest rfl specified ended
  refine .bind (leads_stars ended ?_)
  intro indirection middle stars ended
  refine .bind (leads_name ended ?_)
  rintro name rest rfl named ended
  refine .bind (.discard (.act (Checker.blind_declareVariable _ _) fun symbol known declared => ?_))
  refine .pure ⟨⟨specifier, indirection, name.text⟩, .scalar specified stars named, ?_, ended⟩
  exact Checking.then_eq (Checking.discard_eq declared) rfl

/-- Parameters after the first one, and perhaps dots after them all. -/
def FurtherParameters (start : List Token) (parameters : Parameters) (rest : List Token) : Prop :=
  if parameters.variadic then
    ∃ comma dots, Run (AfterComma Parameter.Derives) start parameters.listed
      (comma :: dots :: rest) ∧ comma.kind = .comma ∧ dots.kind = .ellipsis
  else Run (AfterComma Parameter.Derives) start parameters.listed rest

/-- Declare the parameters in the current scope. -/
def declareParameters (parameters : Parameters) : Checking (List Ty × Bool) := do
  let types ← parameters.listed.mapM' Parameter.elaborate
  return (types, parameters.variadic)

theorem sound_furtherParameters (clock : List Token) :
    Sound (furtherParameters clock) FurtherParameters declareParameters := by
  have nothing {start : Stage} (ended : Ended start.tokens) :
      Yields FurtherParameters declareParameters start ([], false) start :=
    ⟨⟨[], false⟩, .nil _, rfl, ended⟩
  -- The clock counts the parameters that may still come.
  induction clock with
  | nil =>
    intro start ended
    refine .bind (.kind ?_)
    split
    · exact .unexpected
    · exact .pure (nothing ended)
  | cons _ clock ih =>
    rintro ⟨tokens, checker⟩ ended
    refine .bind (.kind ?_)
    split
    · next separated =>
      refine .bind (.discard (leads_advance ended (by simp [separated]) ?_))
      rintro comma rest rfl ended
      refine .bind (.kind ?_)
      split
      · next dotted =>
        refine .bind (.discard (leads_advance ended (by simp [dotted]) ?_))
        rintro dots rest rfl ended
        exact .pure ⟨⟨[], true⟩, ⟨comma, dots, .nil _, separated, dotted⟩, rfl, ended⟩
      · refine .bind ((sound_parameter _ ended).weaken ?_)
        rintro type ⟨rest, known⟩ ⟨parameter, derived, declared, ended⟩
        refine .bind ((ih _ ended).weaken ?_)
        rintro ⟨types, variadic⟩ ⟨last, final⟩ ⟨⟨listed, dots⟩, further, checked, ended⟩
        have first : AfterComma Parameter.Derives (comma :: _) parameter rest :=
          ⟨comma, _, rfl, separated, derived⟩
        obtain ⟨found, later, all, same⟩ := Checking.bind_eq.mp checked
        cases same
        refine .pure ⟨⟨parameter :: listed, dots⟩, ?_, ?_, ended⟩
        · cases dots with
          | false => exact .cons first further
          | true =>
            obtain ⟨between, ellipsis, run, kinds⟩ := further
            exact ⟨between, ellipsis, .cons first run, kinds⟩
        · exact Checking.then_eq (Checking.then_eq declared (Checking.then_eq all rfl)) rfl
    · exact .pure (nothing ended)

theorem sound_parameterList : Sound parameterList Parameters.Derives declareParameters := by
  rintro ⟨tokens, checker⟩ ended
  refine .bind (.kind ?_)
  split
  · next nothing =>
    refine .bind (.discard (leads_advance ended (by simp [nothing]) ?_))
    rintro word rest rfl ended
    exact .pure ⟨⟨[], false⟩, .nothing nothing, rfl, ended⟩
  · refine .bind ((sound_parameter _ ended).weaken ?_)
    rintro type ⟨rest, known⟩ ⟨parameter, derived, declared, ended⟩
    refine .bind (.get fun _ _ => ?_)
    refine .bind ((sound_furtherParameters _ _ ended).weaken ?_)
    rintro ⟨types, variadic⟩ ⟨last, final⟩ ⟨⟨listed, dots⟩, further, checked, ended⟩
    obtain ⟨found, later, all, same⟩ := Checking.bind_eq.mp checked
    cases same
    refine .pure ⟨⟨parameter :: listed, dots⟩, ?_, ?_, ended⟩
    -- The dots, where they come, are told from a further parameter.
    · cases dots with
      | false => exact .closed ((commas_iff _).mpr ⟨_, _, _, rfl, derived, further⟩)
      | true =>
        obtain ⟨between, ellipsis, run, separated, dotted⟩ := further
        exact .variadic ((commas_iff _).mpr ⟨_, _, _, rfl, derived, run⟩) separated dotted
    · exact Checking.then_eq (Checking.then_eq declared (Checking.then_eq all rfl)) rfl

theorem sound_signature (specifier : Specifier) (indirection : Nat) :
    Sound (signature specifier indirection) Parameters.Derives
      (Parameters.elaborate specifier indirection) := by
  rintro ⟨tokens, checker⟩ ended
  refine .bind (.act Checker.blind_openScope fun scope opened entered => ?_)
  refine .bind ((sound_parameterList ⟨tokens, opened⟩ ended).weaken ?_)
  rintro ⟨types, variadic⟩ ⟨rest, final⟩ ⟨parameters, derived, checked, ended⟩
  -- The types are those of the parameters that the grammar has found.
  obtain ⟨found, later, all, same⟩ := Checking.bind_eq.mp checked
  cases same
  refine .pure ⟨parameters, derived, ?_, ended⟩
  exact Checking.then_eq entered (Checking.then_eq all rfl)

/-! Statements. -/

theorem sound_assignment (levels : Nat) :
    Sound (assignment levels) Clause.Assigns Clause.elaborate := by
  rintro ⟨tokens, checker⟩ ended
  refine .bind ((sound_expression levels _ ended).weaken ?_)
  rintro left ⟨rest, known⟩ ⟨phrase, first, checked, ended⟩
  refine .bind (.kind ?_)
  -- The sign after the first expression decides that it is a place.
  split
  · next spelled =>
    refine .bind (.discard (leads_advance ended (by simp [spelled]) ?_))
    rintro sign rest rfl ended
    refine .bind ((sound_expression levels _ ended).weaken ?_)
    rintro right ⟨rest, later⟩ ⟨other, second, judged, ended⟩
    refine .check fun statement final recorded => ?_
    refine ⟨.assign phrase other, .assign first spelled second, ?_, ended⟩
    rw [Clause.elaborate]
    exact Checking.then_eq checked (Checking.then_eq judged recorded)
  · refine .pure ⟨.evaluate phrase, .evaluate first, ?_, ended⟩
    rw [Clause.elaborate]
    exact Checking.then_eq checked rfl

theorem sound_condition (levels : Nat) :
    Sound (condition levels) Clause.Condition Clause.elaborateTest := by
  rintro ⟨tokens, checker⟩ ended
  refine .bind (.discard (.expect ended (by simp) ?_))
  rintro opening rest rfl opens ended
  refine .bind ((sound_expression levels _ ended).weaken ?_)
  rintro value ⟨rest, known⟩ ⟨phrase, derived, checked, ended⟩
  refine .bind (.check fun test final recorded => ?_)
  refine .bind (.discard (.expect ended (by simp) ?_))
  rintro closing rest rfl closes ended
  refine .pure ⟨phrase, .parenthesised opens derived closes, ?_, ended⟩
  exact Checking.then_eq checked recorded

theorem sound_insideLoop {α β : Type} {body : Reading α}
    {grammar : List Token → β → List Token → Prop} {meaning : β → Checking α}
    (sound : Sound body grammar meaning) :
    Sound (insideLoop body) grammar fun thing => Clause.elaborateTurn (meaning thing) := by
  rintro start ended reader value next rfl done
  unfold insideLoop at done
  -- The body is read by a checker inside of one more loop, and so is it checked.
  cases read : body { reader with checker := reader.checker.enterLoop } with
  | error failure state => simp [read] at done
  | ok result state =>
    rw [read] at done
    cases done
    obtain ⟨thing, derived, checked, last⟩ := sound
      ⟨upToEnd reader.current reader.rest, reader.checker.unplaced.enterLoop⟩ ended _ _ _ rfl read
    refine ⟨thing, derived, ?_, last⟩
    exact Checking.then_eq rfl (Checking.then_eq checked rfl)

theorem elaborateAll_eq_mapM_clause (clauses : List Clause) :
    Clause.elaborateAll clauses = clauses.mapM' Clause.elaborate := by
  induction clauses with
  | nil => rw [Clause.elaborateAll]; rfl
  | cons first rest ih =>
    rw [Clause.elaborateAll, ih]
    rfl

/-! A statement is told by its first token: each kind of statement in turn, given that what is read of
the statements inside it has a derivation. -/

section

variable {levels : Nat} {tokens : List Token} {checker : Checker}

theorem leads_block (inner : Sound (statement levels) Clause.Whole Clause.elaborate)
    (opens : ahead tokens = .leftBrace) (ended : Ended tokens) :
    Leads (statement (levels + 1)) ⟨tokens, checker⟩
      (Yields Clause.Whole Clause.elaborate ⟨tokens, checker⟩) := by
  unfold statement
  refine .bind (.kind ?_)
  rw [opens]
  refine .bind (.discard (leads_advance ended (by simp [opens]) ?_))
  rintro opening rest rfl ended
  refine .bind (.act Checker.blind_openScope fun scope opened entered => ?_)
  refine .bind ((sound_declarations _ ended).weaken ?_)
  rintro _ ⟨middle, known⟩ ⟨declared, declares, checked, ended⟩
  refine .bind ((sound_many (fun start ended _ => inner start ended) _ ended).weaken ?_)
  rintro statements ⟨rest, later⟩ ⟨body, runs, judged, ended⟩
  refine .bind (.discard (.act Checker.blind_closeScope fun closed final left => ?_))
  refine .bind (.discard (.expect ended (by simp) ?_))
  rintro closing rest rfl closes ended
  -- That every statement is whole was needed to read them, and follows from what they are.
  have runs := Run.mono (fun _ _ _ (whole : Clause.Whole _ _ _) => whole.1) runs
  refine .pure ⟨.block declared body, Clause.Derives.whole (.block opens declares runs closes) rfl,
    ?_, ended⟩
  rw [Clause.elaborate, elaborateAll_eq_mapM_clause]
  refine Checking.then_eq entered (Checking.then_eq checked (Checking.then_eq judged ?_))
  exact Checking.then_eq (Checking.discard_eq left) rfl

theorem leads_breakLoop (found : ahead tokens = .breakWord) (ended : Ended tokens) :
    Leads (statement (levels + 1)) ⟨tokens, checker⟩
      (Yields Clause.Whole Clause.elaborate ⟨tokens, checker⟩) := by
  unfold statement
  refine .bind (.kind ?_)
  rw [found]
  refine .bind (.discard (leads_advance ended (by simp [found]) ?_))
  rintro word rest rfl ended
  refine .bind (.get fun reader reached => ?_)
  refine .bind (.check fun leave final recorded => ?_)
  refine .bind (.discard (.expect ended (by simp) ?_))
  rintro closing rest rfl closes ended
  refine .pure ⟨.breakLoop, Clause.Derives.whole (.breakLoop found closes) rfl, ?_, ended⟩
  -- The verdict depends on how many loops are open, not on the place.
  have same : reader.checker.unplaced = checker := congrArg Stage.checker reached
  rw [Clause.elaborate]
  refine Checking.then_eq rfl ?_
  rw [← same] at recorded ⊢
  exact recorded

theorem leads_returnValue (found : ahead tokens = .returnWord) (ended : Ended tokens) :
    Leads (statement (levels + 1)) ⟨tokens, checker⟩
      (Yields Clause.Whole Clause.elaborate ⟨tokens, checker⟩) := by
  unfold statement
  refine .bind (.kind ?_)
  rw [found]
  refine .bind (.discard (leads_advance ended (by simp [found]) ?_))
  rintro word rest rfl ended
  refine .bind ((sound_expression levels _ ended).weaken ?_)
  rintro value ⟨rest, known⟩ ⟨phrase, derived, checked, ended⟩
  refine .bind (.get fun reader reached => ?_)
  refine .bind (.check fun leave final recorded => ?_)
  refine .bind (.discard (.expect ended (by simp) ?_))
  rintro closing rest rfl closes ended
  refine .pure ⟨.returnValue phrase, Clause.Derives.whole (.returnValue found derived closes) rfl,
    ?_, ended⟩
  -- The verdict depends on the type that is returned, not on the place.
  have same : reader.checker.unplaced = known := congrArg Stage.checker reached
  rw [Clause.elaborate]
  refine Checking.then_eq checked (Checking.then_eq rfl ?_)
  rw [← same] at recorded ⊢
  exact recorded

theorem leads_whileLoop (inner : Sound (statement levels) Clause.Whole Clause.elaborate)
    (found : ahead tokens = .whileWord) (ended : Ended tokens) :
    Leads (statement (levels + 1)) ⟨tokens, checker⟩
      (Yields Clause.Whole Clause.elaborate ⟨tokens, checker⟩) := by
  unfold statement
  refine .bind (.kind ?_)
  rw [found]
  refine .bind (.discard (leads_advance ended (by simp [found]) ?_))
  rintro word rest rfl ended
  refine .bind ((sound_condition levels _ ended).weaken ?_)
  rintro test ⟨middle, known⟩ ⟨phrase, tests, checked, ended⟩
  refine .bind ((sound_insideLoop inner _ ended).weaken ?_)
  rintro turn ⟨rest, final⟩ ⟨body, ⟨derived, whole⟩, turned, ended⟩
  -- The loop dangles as its body does.
  refine .pure ⟨.whileLoop phrase body, ⟨.whileLoop found tests derived, whole⟩, ?_, ended⟩
  rw [Clause.elaborate]
  exact Checking.then_eq checked (Checking.then_eq turned rfl)

theorem leads_forLoop (inner : Sound (statement levels) Clause.Whole Clause.elaborate)
    (found : ahead tokens = .forWord) (ended : Ended tokens) :
    Leads (statement (levels + 1)) ⟨tokens, checker⟩
      (Yields Clause.Whole Clause.elaborate ⟨tokens, checker⟩) := by
  unfold statement
  refine .bind (.kind ?_)
  rw [found]
  refine .bind (.discard (leads_advance ended (by simp [found]) ?_))
  rintro word rest rfl ended
  refine .bind (.discard (.expect ended (by simp) ?_))
  rintro opening rest rfl opens ended
  refine .bind ((sound_assignment levels _ ended).weaken ?_)
  rintro init ⟨rest, started⟩ ⟨starting, starts, begun, ended⟩
  refine .bind (.discard (.expect ended (by simp) ?_))
  rintro first rest rfl separates ended
  refine .bind ((sound_expression levels _ ended).weaken ?_)
  rintro value ⟨rest, valued⟩ ⟨phrase, tests, checked, ended⟩
  refine .bind (.check fun test tested recorded => ?_)
  refine .bind (.discard (.expect ended (by simp) ?_))
  rintro second rest rfl parts ended
  refine .bind ((sound_assignment levels _ ended).weaken ?_)
  rintro increment ⟨rest, stepped⟩ ⟨stepping, steps, advanced, ended⟩
  refine .bind (.discard (.expect ended (by simp) ?_))
  rintro closing rest rfl closes ended
  refine .bind ((sound_insideLoop inner _ ended).weaken ?_)
  rintro turn ⟨rest, final⟩ ⟨body, ⟨derived, whole⟩, turned, ended⟩
  -- The loop dangles as its body does.
  refine .pure ⟨.forLoop starting phrase stepping body,
    ⟨.forLoop found opens starts separates tests parts steps closes derived, whole⟩, ?_, ended⟩
  rw [Clause.elaborate]
  refine Checking.then_eq begun (Checking.then_eq (Checking.then_eq checked recorded) ?_)
  exact Checking.then_eq advanced (Checking.then_eq turned rfl)

theorem leads_conditional (inner : Sound (statement levels) Clause.Whole Clause.elaborate)
    (found : ahead tokens = .ifWord) (ended : Ended tokens) :
    Leads (statement (levels + 1)) ⟨tokens, checker⟩
      (Yields Clause.Whole Clause.elaborate ⟨tokens, checker⟩) := by
  unfold statement
  refine .bind (.kind ?_)
  rw [found]
  refine .bind (.discard (leads_advance ended (by simp [found]) ?_))
  rintro word rest rfl ended
  refine .bind ((sound_condition levels _ ended).weaken ?_)
  rintro test ⟨middle, known⟩ ⟨phrase, tests, checked, ended⟩
  refine .bind ((inner _ ended).weaken ?_)
  rintro taken ⟨rest, later⟩ ⟨body, ⟨derived, whole⟩, judged, ended⟩
  refine .bind (.kind ?_)
  split
  · next parts =>
    -- The branch that was read has taken every other branch it could.
    have closed : body.dangles = false := Bool.eq_false_iff.mpr fun open_ => whole open_ parts
    refine .bind (.discard (leads_advance ended (by simp [parts]) ?_))
    rintro between rest rfl ended
    refine .bind ((inner _ ended).weaken ?_)
    rintro other ⟨rest, final⟩ ⟨otherwise, ⟨second, settled⟩, concluded, ended⟩
    refine .pure ⟨.ifElse phrase body otherwise,
      ⟨.ifElse found tests derived closed parts second, settled⟩, ?_, ended⟩
    rw [Clause.elaborate]
    exact Checking.then_eq checked (Checking.then_eq judged (Checking.then_eq concluded rfl))
  · next plain =>
    refine .pure ⟨.ifThen phrase body, ⟨.ifThen found tests derived, fun _ => plain⟩, ?_, ended⟩
    rw [Clause.elaborate]
    exact Checking.then_eq checked (Checking.then_eq judged rfl)

end

theorem sound_statement : (levels : Nat) →
    Sound (statement levels) Clause.Whole Clause.elaborate := by
  intro levels
  induction levels with
  | zero =>
    unfold statement
    exact fun start ended => .tooDeep
  | succ levels inner =>
    rintro ⟨tokens, checker⟩ ended
    cases found : ahead tokens with
    | leftBrace => exact leads_block inner found ended
    | breakWord => exact leads_breakLoop found ended
    | returnWord => exact leads_returnValue found ended
    | whileWord => exact leads_whileLoop inner found ended
    | forWord => exact leads_forLoop inner found ended
    | ifWord => exact leads_conditional inner found ended
    | _ =>
      -- What starts with no other word is an expression or an assignment.
      unfold statement
      refine .bind (.kind ?_)
      rw [found]
      refine .bind ((sound_assignment levels _ ended).weaken ?_)
      rintro done ⟨rest, known⟩ ⟨clause, assigns, checked, ended⟩
      refine .bind (.discard (.expect ended (by simp) ?_))
      rintro closing rest rfl closes ended
      refine .pure ⟨clause, Clause.Derives.whole (.simple assigns closes) ?_, checked, ended⟩
      cases assigns <;> rfl

/-! Units. -/

theorem leads_declarePrototype {tokens : List Token} {checker : Checker} {name : String} {type : Ty}
    {good : PUnit → Stage → Prop}
    (holds : ∀ symbol final, Checker.declareFunction name type checker.closeParameters =
      (symbol, final) → good ⟨⟩ ⟨tokens, final⟩) :
    Leads (declarePrototype name type) ⟨tokens, checker⟩ good := by
  have blind : Blind fun checker : Checker => ((), checker.closeParameters) := by
    intro checker
    simp only [Checker.unplaced_closeParameters]
  refine .bind (.act blind ?_)
  rintro _ known ⟨⟩
  exact .discard (.act (Checker.blind_declareFunction _ _) holds)

theorem sound_globalDeclarator (specifier : Specifier) : Sound (globalDeclarator specifier)
    (GlobalDeclarator.Derives specifier) (GlobalDeclarator.elaborate specifier) := by
  rintro ⟨tokens, checker⟩ ended
  refine .bind (leads_stars ended ?_)
  intro indirection middle stars ended
  refine .bind (leads_name ended ?_)
  rintro name rest rfl named ended
  refine .bind (.kind ?_)
  -- A parenthesis behind the name starts the parameters of a prototype.
  split
  · next opens =>
    refine .bind (.discard (leads_advance ended (by simp [opens]) ?_))
    rintro opening rest rfl ended
    refine .bind ((sound_signature specifier indirection _ ended).weaken ?_)
    rintro ⟨type, scope⟩ ⟨rest, known⟩ ⟨parameters, derived, checked, ended⟩
    refine .bind (leads_declarePrototype fun symbol final declared => ?_)
    refine .discard (.expect ended (by simp) ?_)
    rintro closing rest rfl closes ended
    refine ⟨.prototype indirection name.text parameters,
      .prototype stars named opens derived closes, ?_, ended⟩
    refine Checking.then_eq checked (Checking.then_eq rfl ?_)
    exact Checking.discard_eq declared
  · refine (leads_declareObject specifier stars named ended).weaken ?_
    rintro _ final ⟨declarator, derived, checked, ended⟩
    exact ⟨.object declarator, .object derived, checked, ended⟩

/-- The first declarator has been read, and the rest of its declaration follows. -/
theorem leads_furtherDeclarators {word : Token} {specifier : Specifier} {start : List Token}
    {checker : Checker} (specified : word.kind = .specifier specifier) {middle : Stage}
    (first : Yields (GlobalDeclarator.Derives specifier) (GlobalDeclarator.elaborate specifier)
      ⟨start, checker⟩ ⟨⟩ middle) :
    Leads (do furtherDeclarators specifier; return none) middle
      (Yields Global.Derives Global.elaborate ⟨word :: start, checker⟩) := by
  obtain ⟨declarator, derived, checked, ended⟩ := first
  unfold furtherDeclarators
  rw [bind_assoc]
  refine .bind (.discard ((sound_many (fun start ended separated =>
    sound_afterComma (sound_globalDeclarator specifier) ended ?_) _ ended).weaken ?_))
  · simpa using separated
  rintro _ ⟨rest, known⟩ ⟨declarators, run, all, ended⟩
  refine .bind (.discard (.expect ended (by simp) ?_))
  rintro closing rest rfl closes ended
  -- The first declarator and those after commas are listed together.
  refine .pure ⟨.declaration specifier (declarator :: declarators), ?_, ?_, ended⟩
  · exact .declaration specified ((commas_iff _).mpr ⟨_, _, _, rfl, derived, run⟩) closes
  · have every : (declarator :: declarators).mapM' (GlobalDeclarator.elaborate specifier) checker =
        (_, known) := Checking.then_eq checked (Checking.then_eq all rfl)
    exact Checking.then_eq (Checking.discard_eq every) rfl

theorem sound_topLevel : Sound topLevel Global.Derives Global.elaborate := by
  rintro ⟨tokens, checker⟩ ended
  refine .bind (leads_specifier ended ?_)
  rintro word specifier start rfl specified ended
  refine .bind (leads_stars ended ?_)
  intro indirection middle stars ended
  refine .bind (leads_name ended ?_)
  rintro name rest rfl named ended
  refine .bind (.kind ?_)
  split
  · next opens =>
    refine .bind (.discard (leads_advance ended (by simp [opens]) ?_))
    rintro opening rest rfl ended
    refine .bind ((sound_signature specifier indirection _ ended).weaken ?_)
    rintro ⟨type, scope⟩ ⟨rest, signed⟩ ⟨parameters, derived, checked, ended⟩
    -- The type of the function says what it returns.
    obtain ⟨_, opened, entered, declared⟩ := Checking.bind_eq.mp checked
    obtain ⟨types, listed, all, same⟩ := Checking.bind_eq.mp declared
    cases same
    refine .bind (.discard (.expect ended (by simp) ?_))
    rintro closing rest rfl closes ended
    refine .bind (.kind ?_)
    split
    · next begins =>
      unfold functionBody
      simp only [bind_assoc, Ty.specifier?, Ty.indirection]
      refine .bind (.get fun reader reached => ?_)
      refine .bind (.act (fun _ => rfl) ?_)
      rintro _ begun ⟨⟩
      refine .bind (.act (Checker.blind_defineFunction _ _) fun symbol defined entered => ?_)
      refine .bind (.discard (.expect ended (by simp) ?_))
      rintro brace rest rfl _ ended
      refine .bind ((sound_declarations _ ended).weaken ?_)
      rintro _ ⟨middle, known⟩ ⟨declarations, declares, declared, ended⟩
      refine .bind ((sound_many (fun start ended _ => sound_statement _ start ended) _ ended).weaken ?_)
      rintro statements ⟨rest, later⟩ ⟨clauses, runs, judged, ended⟩
      refine .bind (.act Checker.blind_closeScope fun closed final left => ?_)
      refine .bind (.discard (.expect ended (by simp) ?_))
      rintro last rest rfl ends ended
      have runs := Run.mono (fun _ _ _ (whole : Clause.Whole _ _ _) => whole.1) runs
      refine .pure ⟨.definition
        ⟨specifier, indirection, name.text, parameters, declarations, clauses⟩, ?_, ?_, ended⟩
      · exact .definition specified stars named opens derived closes begins declares runs ends
      · refine Checking.then_eq (Checking.then_eq checked ?_) rfl
        have same : reader.checker.unplaced = signed := congrArg Stage.checker reached
        refine Checking.then_eq rfl (Checking.then_eq rfl (Checking.then_eq entered ?_))
        refine Checking.then_eq declared ?_
        rw [elaborateAll_eq_mapM_clause]
        refine Checking.then_eq judged (Checking.then_eq left ?_)
        rw [← same]
        rfl
    · refine .bind (leads_declarePrototype fun symbol final declared => ?_)
      refine leads_furtherDeclarators specified ⟨.prototype indirection name.text parameters, ?_, ?_, ended⟩
      · exact .prototype stars named opens derived closes
      · refine Checking.then_eq checked (Checking.then_eq rfl ?_)
        exact Checking.discard_eq declared
  · refine .bind ((leads_declareObject specifier stars named ended).weaken ?_)
    rintro _ final ⟨declarator, derived, checked, ended⟩
    exact leads_furtherDeclarators specified ⟨.object declarator, .object derived, checked, ended⟩

end Reading

end SmallC
