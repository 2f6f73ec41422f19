import SmallC.Proofs.Breaks.Calm
import SmallC.Proofs.Breaks.Visits
import SmallC.Proofs.Derivations.SoundUnits
import SmallC.Proofs.Ending.Travels
import SmallC.Proofs.Report.Procedures

/-! Crossing words that leave a loop: the checker reports those that have no loop around them, each at
the place behind its word. -/

namespace SmallC

/-- The places of the reports that there is no loop to leave. -/
def strayPlaces (reports : List Report) : List Position :=
  (reports.filter (·.problem = .breakOutsideLoop)).map (·.position)

/-- Of the places those with no loop around them. -/
def outside (places : List Position) (depths : List Nat) : List Position :=
  ((places.zip depths).filter (·.2 = 0)).map (·.1)

theorem strayPlaces_append (reports others : List Report) :
    strayPlaces (reports ++ others) = strayPlaces reports ++ strayPlaces others := by
  unfold strayPlaces
  rw [List.filter_append, List.map_append]

/-- Other problems leave no such place. -/
theorem strayPlaces_eq_nil {reports : List Report}
    (others : ∀ report ∈ reports, report.problem ≠ .breakOutsideLoop) : strayPlaces reports = [] := by
  have absent : reports.filter (·.problem = .breakOutsideLoop) = [] :=
    List.filter_eq_nil_iff.mpr fun report member => by simpa using others report member
  rw [strayPlaces, absent, List.map_nil]

theorem outside_append {places : List Position} {depths : List Nat}
    (count : places.length = depths.length) (more : List Position) (others : List Nat) :
    outside (places ++ more) (depths ++ others) = outside places depths ++ outside more others := by
  unfold outside
  rw [List.zip_append count, List.filter_append, List.map_append]

namespace Reader

/-- From one reader to the next, words that leave a loop have been taken, with so many loops around
each, and those without any have been reported, each at the place behind its word. -/
def Crosses (depths : List Nat) (reader next : Reader) : Prop :=
  ∃ places reports, places.length = depths.length ∧
    behindBreaks reader.sight = places ++ behindBreaks next.sight ∧
    next.checker.reports = reader.checker.reports ++ reports ∧
    strayPlaces reports = outside places depths

variable {reader middle next : Reader} {depths others : List Nat}

theorem Crosses.trans (first : Crosses depths reader middle) (second : Crosses others middle next) :
    Crosses (depths ++ others) reader next := by
  obtain ⟨places, early, count, seen, found, same⟩ := first
  obtain ⟨more, late, length, further, reported, agree⟩ := second
  refine ⟨places ++ more, early ++ late, ?_, ?_, ?_, ?_⟩
  · rw [List.length_append, List.length_append, count, length]
  · rw [seen, further, List.append_assoc]
  · rw [reported, found, List.append_assoc]
  · rw [strayPlaces_append, same, agree, outside_append count]

/-- Nothing happens without a report, tokens staying in sight. -/
theorem crosses_of_eq (sight : behindBreaks next.sight = behindBreaks reader.sight)
    (reports : next.checker.reports = reader.checker.reports) : Crosses [] reader next :=
  ⟨[], [], rfl, sight.symm, by simpa using reports, rfl⟩

end Reader

/-- As many loops are open before and after the words that are crossed. -/
structure Reader.Passes (depths : List Nat) (reader next : Reader) : Prop where
  /-- The words are crossed. -/
  crosses : reader.Crosses depths next
  /-- As many loops are open. -/
  loops : next.checker.loops = reader.checker.loops

theorem Reader.Passes.trans {reader middle next : Reader} {depths others : List Nat}
    (first : Passes depths reader middle) (second : Passes others middle next) :
    Passes (depths ++ others) reader next :=
  ⟨first.crosses.trans second.crosses, second.loops.trans first.loops⟩

namespace Reading

variable {α β : Type} {reader middle next : Reader}

/-- An action that takes words that leave a loop, which depend on its value and on how many loops are
open around it. -/
def Crossing (action : Reading α) (depths : α → (loops : Nat) → List Nat) : Prop :=
  ∀ reader value next, action reader = .ok value next →
    reader.Passes (depths value reader.checker.loops) next

/-- An action that takes no word that leaves a loop. -/
abbrev Quiet (action : Reading α) : Prop :=
  Crossing action fun _ _ => []

/-- What is read next crosses further words with the same loops around. -/
theorem Crossing.after {action : Reading α} {depths : α → Nat → List Nat}
    (crossing : Crossing action depths) {before : List Nat} {value : α}
    (first : reader.Passes before middle) (done : action middle = .ok value next) :
    reader.Passes (before ++ depths value reader.checker.loops) next := by
  have second := crossing middle value next done
  rw [first.loops] at second
  exact first.trans second

/-! What crosses no word. -/

theorem passes_refl (reader : Reader) : reader.Passes [] reader :=
  ⟨Reader.crosses_of_eq rfl rfl, rfl⟩

/-- Past plain tokens and with a calm checker no word is crossed. -/
theorem passes_of_calm (walks : reader.Walks next)
    (plain : Plain reader.outlook.tokens next.outlook.tokens)
    (calm : reader.outlook.checker.Calm next.outlook.checker) : reader.Passes [] next := by
  obtain ⟨more, reported⟩ := walks.reports
  refine ⟨⟨[], more, rfl, plain, reported.symm, ?_⟩, calm.loops⟩
  -- What is reported in addition is the same with or without places.
  obtain ⟨problems, added, others⟩ := calm.adds.reports
  have same : next.checker.reports.map (·.problem) =
      reader.checker.reports.map (·.problem) ++ problems := by
    have both := congrArg (List.map Report.problem) added
    simpa [Reader.outlook, Checker.unplaced, Function.comp_def] using both
  rw [← reported, List.map_append] at same
  have listed := List.append_cancel_left same
  refine strayPlaces_eq_nil fun report member => others _ ?_
  exact listed ▸ List.mem_map_of_mem member

theorem Walking.reached {action : Reading α} (walks : Walking action) {value : α}
    (done : action reader = .ok value next) : reader.Walks next := by
  have stopped := walks reader
  rwa [done] at stopped

/-- Where an action leads past plain tokens and leaves the checker calm, it is quiet. -/
theorem quiet_of_leads {action : Reading α} (walks : Walking action)
    (leads : ∀ start, Ended start.tokens → Leads action start fun _ final =>
      Plain start.tokens final.tokens ∧ start.checker.Calm final.checker) : Quiet action := by
  intro reader value next done
  obtain ⟨plain, calm⟩ := leads reader.outlook (ended_upToEnd _ _) reader value next rfl done
  exact passes_of_calm (walks.reached done) plain calm

/-- What is read of a grammar without such words is quiet. -/
theorem Sound.quiet {action : Reading α} {grammar : List Token → β → List Token → Prop}
    {meaning : β → Checking α} (sound : Sound action grammar meaning) (walks : Walking action)
    (plain : ∀ start thing rest, grammar start thing rest →
      Plain start rest ∧ (meaning thing).Calm) : Quiet action := by
  refine quiet_of_leads walks fun start ended => (sound start ended).weaken ?_
  rintro value final ⟨thing, derived, checked, -⟩
  have calm := (plain _ _ _ derived).2 start.checker
  rw [checked] at calm
  exact ⟨(plain _ _ _ derived).1, calm⟩

theorem calm_refl (checker : Checker) : checker.Calm checker :=
  ⟨rfl, Checker.adds_of_eq rfl rfl⟩

theorem quiet_expect {wanted : TokenKind} (further : wanted ≠ .done) (other : wanted ≠ .breakWord) :
    Quiet (discard (expect wanted)) := by
  refine quiet_of_leads (walking.discard (walking.expect _)) fun start ended => ?_
  refine .discard (.expect ended further ?_)
  intro token rest split spelled _
  rw [split]
  exact ⟨.token spelled other, calm_refl _⟩

/-- Behind what has been crossed a token of another kind may be taken. -/
theorem passes_expect {wanted : TokenKind} {value : PUnit} {before : List Nat}
    (first : reader.Passes before middle) (done : discard (expect wanted) middle = .ok value next)
    (plain : wanted ∉ [.done, .breakWord]) : reader.Passes before next := by
  simp only [List.mem_cons, List.not_mem_nil, or_false, not_or] at plain
  have whole := (quiet_expect plain.1 plain.2).after first done
  rwa [List.append_nil] at whole

theorem quiet_specifier : Quiet specifier := by
  refine quiet_of_leads walking.specifier fun start ended => leads_specifier ended ?_
  intro token found rest split specified _
  rw [split]
  exact ⟨.token specified (by simp), calm_refl _⟩

theorem quiet_stars : Quiet stars := by
  refine quiet_of_leads walking.stars fun start ended => leads_stars ended ?_
  exact fun count rest stars _ => ⟨stars.plain, calm_refl _⟩

theorem quiet_name : Quiet name := by
  refine quiet_of_leads walking.name fun start ended => leads_name ended ?_
  intro token rest split spelled _
  rw [split]
  exact ⟨.token spelled (by decide), calm_refl _⟩

theorem quiet_expression (levels : Nat) : Quiet (expression levels) :=
  (sound_expression levels).quiet (walking_expression levels)
    fun _ phrase _ derived => ⟨derived.plain, phrase.calm_elaborate⟩

theorem quiet_assignment (levels : Nat) : Quiet (assignment levels) :=
  (sound_assignment levels).quiet (walking_assignment levels)
    fun _ _ _ derived => ⟨derived.plain, derived.calm⟩

theorem quiet_condition (levels : Nat) : Quiet (condition levels) :=
  (sound_condition levels).quiet (walking_condition levels)
    fun _ test _ derived => ⟨derived.plain, Clause.calm_elaborateTest test⟩

theorem quiet_declarations : Quiet declarations :=
  sound_declarations.quiet walking.declarations fun _ _ _ derived =>
    ⟨.run (fun _ _ _ => Declaration.Derives.plain) derived,
      (Checking.calm_mapM Declaration.calm_elaborate).discard⟩

theorem quiet_signature (specifier : Specifier) (indirection : Nat) :
    Quiet (signature specifier indirection) :=
  (sound_signature specifier indirection).quiet (walking_signature specifier indirection)
    fun _ parameters _ derived => ⟨derived.plain, parameters.calm_elaborate specifier indirection⟩

/-- What leaves the checker calm is quiet. -/
theorem quiet_act {action : Checking α} (calm : action.Calm) : Quiet (act action) := by
  intro reader value next done
  cases done
  have after := calm reader.checker
  obtain ⟨problems, added, others⟩ := after.adds.reports
  -- No token is taken and no report tells of a word outside of a loop.
  refine ⟨⟨[], _, rfl, rfl, added, ?_⟩, after.loops⟩
  refine strayPlaces_eq_nil fun report member => ?_
  obtain ⟨problem, listed, rfl⟩ := List.mem_map.mp member
  exact others problem listed

theorem quiet_check {verdict : Verdict α} (judged : verdict.Judged) : Quiet (check verdict) :=
  quiet_act (Checking.calm_record judged)

/-- Looking at the token in hand leaves it there. -/
theorem kind_bind (further : TokenKind → Reading α) (reader : Reader) :
    (kind >>= further) reader = further reader.current.kind reader := rfl

/-- Looking at the reader leaves it as it is. -/
theorem get_bind (further : Reader → Reading α) (reader : Reader) :
    (get >>= further) reader = further reader reader := rfl

/-- A token of another kind that is in hand is taken quietly. -/
theorem passes_advance {found : TokenKind} {value : PUnit} (same : reader.current.kind = found)
    (plain : found ∉ [.done, .breakWord])
    (done : discard advance reader = .ok value next) : reader.Passes [] next := by
  subst same
  simp only [List.mem_cons, List.not_mem_nil, or_false, not_or] at plain
  obtain ⟨token, taken⟩ := discard_ok done
  cases taken
  refine ⟨Reader.crosses_of_eq ?_ rfl, rfl⟩
  rw [Reader.sight_step plain.1]
  exact (Plain.token rfl plain.2).symm

/-! Statements. -/

/-- The word that leaves a loop is judged with the next token in hand. -/
theorem passes_break {value : PUnit} {leave : Statement} (found : reader.current.kind = .breakWord)
    (taken : discard advance reader = .ok value middle)
    (checked : check (checkBreak middle.checker.loops) middle = .ok leave next) :
    leave = .breakLoop ∧ reader.Passes [reader.checker.loops] next := by
  obtain ⟨token, taken⟩ := discard_ok taken
  cases taken
  cases checked
  -- The word is not the end, so what is behind it is what is ahead one token later.
  have further : reader.current.kind ≠ .done := by simp [found]
  obtain ⟨rest, seen⟩ := Reader.head_sight reader.step
  have behind : behindBreaks reader.sight = reader.step.current.position :: behindBreaks reader.step.sight := by
    rw [Reader.sight_step further, seen, behindBreaks, if_pos found]
  by_cases none : reader.checker.loops = 0
  · -- There is no loop, so the place in hand is reported.
    have judged : checkBreak reader.step.checker.loops = ⟨.breakLoop, some .breakOutsideLoop⟩ := by
      show checkBreak reader.checker.loops = _
      rw [none]
      rfl
    rw [judged, none]
    exact ⟨rfl, ⟨[_], [⟨.breakOutsideLoop, _⟩], rfl, behind, rfl, rfl⟩, rfl⟩
  · have judged : checkBreak reader.step.checker.loops = ⟨.breakLoop, Option.none⟩ := by
      show checkBreak reader.checker.loops = _
      rw [checkBreak, if_neg none]
    rw [judged]
    refine ⟨rfl, ⟨[_], [], rfl, behind, (List.append_nil _).symm, ?_⟩, rfl⟩
    simp [outside, strayPlaces, none]

/-- In the body of a loop there is one more loop around. -/
theorem crossing_insideLoop {body : Reading α} {depths : α → Nat → List Nat}
    (crossing : Crossing body depths) :
    Crossing (insideLoop body) fun value loops => depths value (loops + 1) := by
  intro reader value next done
  unfold insideLoop at done
  cases read : body { reader with checker := reader.checker.enterLoop } with
  | error failure stopped =>
    rw [read] at done
    cases done
  | ok value last =>
    rw [read] at done
    cases done
    -- Around the body the loops are counted up and then down again.
    have passes := crossing _ _ _ read
    refine ⟨passes.crosses, ?_⟩
    show last.checker.loops - 1 = reader.checker.loops
    rw [passes.loops]
    rfl

theorem crossing_whileAt {test : TokenKind → Bool} {item : Reading α} {depths : α → Nat → List Nat}
    (crossing : Crossing item depths) (clock : List Token) :
    Crossing (whileAt test item clock) fun values loops => values.flatMap (depths · loops) := by
  -- The clock bounds the items, which are read one after the other.
  induction clock with
  | nil =>
    intro reader values next done
    unfold whileAt at done
    rw [kind_bind] at done
    split at done
    · cases done
    · obtain ⟨rfl, rfl⟩ := pure_ok done
      exact passes_refl _
  | cons _ clock ih =>
    intro reader values next done
    unfold whileAt at done
    rw [kind_bind] at done
    split at done
    · obtain ⟨first, second, read, done⟩ := bind_ok done
      obtain ⟨others, last, further, done⟩ := bind_ok done
      obtain ⟨rfl, rfl⟩ := pure_ok done
      exact ih.after (crossing _ _ _ read) further
    · obtain ⟨rfl, rfl⟩ := pure_ok done
      exact passes_refl _

theorem crossing_many {test : TokenKind → Bool} {item : Reading α} {depths : α → Nat → List Nat}
    (crossing : Crossing item depths) :
    Crossing (many test item) fun values loops => values.flatMap (depths · loops) := by
  intro reader values next done
  unfold many at done
  rw [get_bind] at done
  exact crossing_whileAt crossing _ _ _ _ done

/-- An assignment is no statement that leaves a loop, and has none inside. -/
theorem depths_assignment {levels : Nat} {value : Statement}
    (done : assignment levels reader = .ok value next) (loops : Nat) : value.depths loops = [] := by
  obtain ⟨left, _, _, done⟩ := bind_ok done
  rw [kind_bind] at done
  -- Without an equals sign what was read is a value that is evaluated.
  split at done
  · obtain ⟨_, _, _, done⟩ := bind_ok done
    obtain ⟨right, _, _, done⟩ := bind_ok done
    obtain ⟨rfl, -⟩ := act_ok done
    show Statement.depths (.assign _ _) loops = []
    rw [Statement.depths]
  · obtain ⟨rfl, -⟩ := pure_ok done
    rw [Statement.depths]

/-- A statement without a word of its own has none that leaves a loop. -/
theorem crossing_simple (levels : Nat) : Crossing
    (do let done ← assignment levels; discard (expect .semicolon); return done) Statement.depths := by
  intro reader value next done
  obtain ⟨value, _, read, done⟩ := bind_ok done
  obtain ⟨_, _, ended, done⟩ := bind_ok done
  obtain ⟨rfl, rfl⟩ := pure_ok done
  rw [depths_assignment read]
  exact passes_expect (quiet_assignment levels _ _ _ read) ended (by decide)

theorem depthsAll_eq (statements : List Statement) (loops : Nat) :
    Statement.depthsAll statements loops = statements.flatMap (·.depths loops) := by
  induction statements with
  | nil => rfl
  | cons first rest ih => rw [Statement.depthsAll, ih, List.flatMap_cons]

/-! Each kind of statement in turn, told by its first token; `inner` is about the statements inside. -/

section Kinds

variable {levels : Nat} {value : Statement}

/-- Declarations hold no such word, so those of a block are those of its statements. -/
theorem passes_block (inner : Crossing (statement levels) Statement.depths)
    (found : reader.current.kind = .leftBrace)
    (done : statement (levels + 1) reader = .ok value next) :
    reader.Passes (value.depths reader.checker.loops) next := by
  unfold statement at done
  rw [kind_bind, found] at done
  obtain ⟨_, _, taken, done⟩ := bind_ok done
  obtain ⟨scope, _, opened, done⟩ := bind_ok done
  obtain ⟨_, _, declared, done⟩ := bind_ok done
  obtain ⟨body, _, run, done⟩ := bind_ok done
  obtain ⟨_, _, closed, done⟩ := bind_ok done
  obtain ⟨_, _, ended, done⟩ := bind_ok done
  obtain ⟨rfl, rfl⟩ := pure_ok done
  -- Each part of the block passes on what the one before has crossed.
  have entered := (quiet_act Checking.calm_openScope).after
    (passes_advance found (by decide) taken) opened
  have begun := quiet_declarations.after entered declared
  have passed := (crossing_many inner).after begun run
  have left := (quiet_act Checking.calm_closeScope.discard).after passed closed
  rw [Statement.depths, depthsAll_eq]
  simpa using passes_expect left ended (by decide)

/-- The word itself, with the loops around the statement. -/
theorem passes_breakLoop (found : reader.current.kind = .breakWord)
    (done : statement (levels + 1) reader = .ok value next) :
    reader.Passes (value.depths reader.checker.loops) next := by
  unfold statement at done
  rw [kind_bind, found] at done
  obtain ⟨_, _, taken, done⟩ := bind_ok done
  rw [get_bind] at done
  obtain ⟨leave, _, checked, done⟩ := bind_ok done
  obtain ⟨_, _, ended, done⟩ := bind_ok done
  obtain ⟨rfl, rfl⟩ := pure_ok done
  obtain ⟨rfl, passed⟩ := passes_break found taken checked
  rw [Statement.depths]
  exact passes_expect passed ended (by decide)

theorem passes_returnValue (found : reader.current.kind = .returnWord)
    (done : statement (levels + 1) reader = .ok value next) :
    reader.Passes (value.depths reader.checker.loops) next := by
  unfold statement at done
  rw [kind_bind, found] at done
  obtain ⟨_, _, taken, done⟩ := bind_ok done
  obtain ⟨result, _, read, done⟩ := bind_ok done
  rw [get_bind] at done
  obtain ⟨leave, _, checked, done⟩ := bind_ok done
  obtain ⟨_, _, ended, done⟩ := bind_ok done
  obtain ⟨rfl, rfl⟩ := pure_ok done
  -- Neither the value nor its check crosses such a word.
  have valued := (quiet_expression levels).after (passes_advance found (by decide) taken) read
  have judged := (quiet_check (judged_checkReturn _ _)).after valued checked
  obtain ⟨rfl, -⟩ := act_ok checked
  show reader.Passes (Statement.depths (.returnValue _) _) _
  rw [Statement.depths]
  exact passes_expect judged ended (by decide)

/-- The words of the body have one loop more around them. -/
theorem passes_whileLoop (inner : Crossing (statement levels) Statement.depths)
    (found : reader.current.kind = .whileWord)
    (done : statement (levels + 1) reader = .ok value next) :
    reader.Passes (value.depths reader.checker.loops) next := by
  unfold statement at done
  rw [kind_bind, found] at done
  obtain ⟨_, _, taken, done⟩ := bind_ok done
  obtain ⟨test, _, tested, done⟩ := bind_ok done
  obtain ⟨body, _, turned, done⟩ := bind_ok done
  obtain ⟨rfl, rfl⟩ := pure_ok done
  rw [Statement.depths]
  exact (crossing_insideLoop inner).after
    ((quiet_condition levels).after (passes_advance found (by decide) taken) tested) turned

/-- The header holds no such word, so those of the body are all. -/
theorem passes_forLoop (inner : Crossing (statement levels) Statement.depths)
    (found : reader.current.kind = .forWord)
    (done : statement (levels + 1) reader = .ok value next) :
    reader.Passes (value.depths reader.checker.loops) next := by
  unfold statement at done
  rw [kind_bind, found] at done
  obtain ⟨_, _, taken, done⟩ := bind_ok done
  obtain ⟨_, _, opened, done⟩ := bind_ok done
  obtain ⟨init, _, started, done⟩ := bind_ok done
  obtain ⟨_, _, separated, done⟩ := bind_ok done
  obtain ⟨tested, _, read, done⟩ := bind_ok done
  obtain ⟨test, _, checked, done⟩ := bind_ok done
  obtain ⟨_, _, parted, done⟩ := bind_ok done
  obtain ⟨increment, _, stepped, done⟩ := bind_ok done
  obtain ⟨_, _, closed, done⟩ := bind_ok done
  obtain ⟨body, _, turned, done⟩ := bind_ok done
  obtain ⟨rfl, rfl⟩ := pure_ok done
  -- Up to the closing parenthesis nothing of the header leaves a loop, so it all passes with an
  -- empty list.
  have entered := passes_expect (passes_advance found (by decide) taken) opened (by decide)
  have begun := (quiet_assignment levels).after entered started
  have valued := (quiet_expression levels).after (passes_expect begun separated (by decide)) read
  have judged := (quiet_check (judged_checkTest _)).after valued checked
  have further := (quiet_assignment levels).after
    (passes_expect judged parted (by decide)) stepped
  have headed := passes_expect further closed (by decide)
  rw [Statement.depths, depths_assignment started, depths_assignment stepped, List.append_nil]
  exact (crossing_insideLoop inner).after headed turned

theorem passes_conditional (inner : Crossing (statement levels) Statement.depths)
    (found : reader.current.kind = .ifWord)
    (done : statement (levels + 1) reader = .ok value next) :
    reader.Passes (value.depths reader.checker.loops) next := by
  unfold statement at done
  rw [kind_bind, found] at done
  obtain ⟨_, _, taken, done⟩ := bind_ok done
  obtain ⟨test, _, tested, done⟩ := bind_ok done
  obtain ⟨body, _, chosen, done⟩ := bind_ok done
  have passed := inner.after
    ((quiet_condition levels).after (passes_advance found (by decide) taken) tested) chosen
  rw [kind_bind] at done
  -- The word behind the first branch tells whether there is another one.
  split at done
  · next follows =>
    obtain ⟨_, _, parted, done⟩ := bind_ok done
    obtain ⟨otherwise, _, other, done⟩ := bind_ok done
    obtain ⟨rfl, rfl⟩ := pure_ok done
    have whole := inner.after (passed.trans (passes_advance follows (by decide) parted)) other
    rw [Statement.depths]
    simpa using whole
  · obtain ⟨rfl, rfl⟩ := pure_ok done
    rw [Statement.depths]
    exact passed

end Kinds

/-- The words of a statement are crossed with so many loops around each as there are around it in the
statement. -/
theorem crossing_statement (levels : Nat) : Crossing (statement levels) Statement.depths := by
  -- The word in front decides the form, and each form crosses its parts with a level less.
  induction levels with
  | zero =>
    intro reader value next done
    cases done
  | succ levels inner =>
    intro reader value next done
    cases found : reader.current.kind with
    | leftBrace => exact passes_block inner found done
    | breakWord => exact passes_breakLoop found done
    | returnWord => exact passes_returnValue found done
    | whileWord => exact passes_whileLoop inner found done
    | forWord => exact passes_forLoop inner found done
    | ifWord => exact passes_conditional inner found done
    | _ =>
      unfold statement at done
      rw [kind_bind, found] at done
      exact crossing_simple levels _ _ _ done

/-! Units. -/

/-- The loops around the words of what stands at the top of a unit; a function starts outside loops. -/
def depthsOf (global : Option Function) : List Nat :=
  (global.map fun function => Statement.depthsAll function.body 0).getD []

/-- The words of a function's body are crossed from no loop on. -/
theorem crosses_functionBody {name : String} {type : Ty} {scope : ScopeId} {function : Function}
    (typed : type.specifier?.isSome) (done : functionBody name type scope reader = .ok function next) :
    reader.Crosses (Statement.depthsAll function.body 0) next := by
  obtain ⟨specifier, known⟩ := Option.isSome_iff_exists.mp typed
  unfold functionBody at done
  rw [get_bind] at done
  simp only [known] at done
  obtain ⟨_, _, begun, done⟩ := bind_ok done
  cases begun
  obtain ⟨symbol, _, defined, done⟩ := bind_ok done
  obtain ⟨_, _, opened, done⟩ := bind_ok done
  obtain ⟨_, _, declared, done⟩ := bind_ok done
  obtain ⟨body, _, run, done⟩ := bind_ok done
  obtain ⟨_, _, closed, done⟩ := bind_ok done
  obtain ⟨_, _, ended, done⟩ := bind_ok done
  obtain ⟨rfl, rfl⟩ := pure_ok done
  -- From where the function begins, no loop is open.
  have entered := passes_expect (quiet_act (Checking.calm_defineFunction _ _) _ _ _ defined) opened
    (by decide)
  have begun := quiet_declarations.after entered declared
  have passed := (crossing_many (crossing_statement reader.limit)).after begun run
  have left := (quiet_act Checking.calm_closeScope).after passed closed
  have whole := passes_expect left ended (by decide)
  rw [depthsAll_eq]
  have same := whole.crosses
  simp only [List.append_nil, List.nil_append] at same
  exact same

theorem signature_specifier {specifier : Specifier} {indirection : Nat} {signed : Ty × ScopeId}
    (done : signature specifier indirection reader = .ok signed next) :
    signed.1.specifier?.isSome := by
  unfold signature at done
  obtain ⟨_, _, _, done⟩ := bind_ok done
  obtain ⟨_, _, _, done⟩ := bind_ok done
  obtain ⟨rfl, -⟩ := pure_ok done
  rfl

/-- The words of what stands at the top of a unit are crossed, a function starting outside loops. -/
theorem crosses_topLevel {global : Option Function} (done : topLevel reader = .ok global next) :
    reader.Crosses (depthsOf global) next := by
  cases global with
  | none =>
    -- What has no body has been checked as declarations.
    obtain ⟨thing, derived, checked, -⟩ :=
      sound_topLevel reader.outlook (ended_upToEnd _ _) _ _ _ rfl done
    cases thing with
    | definition definition => cases checked
    | declaration specifier declarators =>
      have calm := Global.calm_declaration specifier declarators reader.outlook.checker
      rw [checked] at calm
      exact (passes_of_calm (walking_topLevel.reached done) (Global.plain_declaration derived)
        calm).crosses
  | some function =>
    unfold topLevel at done
    obtain ⟨specifier, _, specified, done⟩ := bind_ok done
    obtain ⟨indirection, _, starred, done⟩ := bind_ok done
    obtain ⟨name, _, named, done⟩ := bind_ok done
    have started := quiet_name.after (quiet_stars.after (quiet_specifier _ _ _ specified) starred) named
    rw [kind_bind] at done
    split at done
    · next opens =>
      obtain ⟨_, _, taken, done⟩ := bind_ok done
      obtain ⟨signed, _, read, done⟩ := bind_ok done
      obtain ⟨_, _, closed, done⟩ := bind_ok done
      have opened := started.trans (passes_advance opens (by decide) taken)
      have headed := passes_expect ((quiet_signature _ _).after opened read) closed (by decide)
      rw [kind_bind] at done
      split at done
      · obtain ⟨body, _, last, done⟩ := bind_ok done
        obtain ⟨same, rfl⟩ := pure_ok done
        cases same
        exact headed.crosses.trans (crosses_functionBody (signature_specifier read) last)
      · obtain ⟨_, _, _, done⟩ := bind_ok done
        obtain ⟨_, _, _, done⟩ := bind_ok done
        obtain ⟨same, -⟩ := pure_ok done
        cases same
    · obtain ⟨_, _, _, done⟩ := bind_ok done
      obtain ⟨_, _, _, done⟩ := bind_ok done
      obtain ⟨same, -⟩ := pure_ok done
      cases same

end Reading

end SmallC
