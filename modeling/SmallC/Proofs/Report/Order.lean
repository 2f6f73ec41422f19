import Mathlib.Data.Prod.Lex
import SmallC.Proofs.Refusals.Sentences
import SmallC.Proofs.Report.Carets

/-! The order of reports: they stand in the order of the source, and a failure does not stand above
them. -/

namespace SmallC

/-- Places are compared by their lines, and on one line by their columns. -/
def Position.key (place : Position) : ℕ ×ₗ ℕ :=
  toLex (place.line, place.column)

/-- The places come in the order of the source. -/
def InOrder (places : List Position) : Prop :=
  places.Pairwise fun first second => first.key ≤ second.key

/-- A place may be repeated where it stands. -/
theorem InOrder.repeated {front more behind : List Position} {place : Position}
    (sorted : InOrder (front ++ place :: behind)) (same : ∀ other ∈ more, other = place) :
    InOrder (front ++ more ++ place :: behind) := by
  obtain ⟨before, tail, across⟩ := List.pairwise_append.mp sorted
  have upTo : ∀ other ∈ place :: behind, place.key ≤ other.key :=
    List.forall_mem_cons.mpr ⟨le_refl _, (List.pairwise_cons.mp tail).1⟩
  have repeats : InOrder more := List.pairwise_of_forall_mem_list fun one inside other within => by
    rw [same one inside, same other within]
  rw [InOrder, List.append_assoc]
  -- The repeated places come behind those in front and before the place itself.
  refine List.pairwise_append.mpr ⟨before, List.pairwise_append.mpr ⟨repeats, tail, ?_⟩, ?_⟩
  · intro one inside other within
    rw [same one inside]
    exact upTo other within
  · intro one inside other within
    rcases List.mem_append.mp within with within | within
    · rw [same other within]
      exact across one inside place List.mem_cons_self
    · exact across one inside other within

/-- A text does not lead back. -/
theorem Position.key_after (place : Position) (text : List Char) :
    place.key ≤ (place.after text).key := by
  induction text generalizing place with
  | nil => exact le_refl _
  | cons character text ih =>
    refine le_trans ?_ (ih (place.advance character))
    rw [key, key, Prod.Lex.toLex_le_toLex, advance]
    -- A newline leads to the next line, and any other character further along this one.
    split
    · exact .inl (Nat.lt_succ_self _)
    · exact .inr ⟨rfl, Nat.le_succ _⟩

/-- Behind an earlier place stands no earlier line. -/
theorem Position.line_le {first second : Position} (upTo : first.key ≤ second.key) :
    first.line ≤ second.line := by
  rcases Prod.Lex.toLex_le_toLex.mp upTo with above | ⟨same, -⟩
  · exact Nat.le_of_lt above
  · exact Nat.le_of_eq same

/-- Tokens come in the order of their source, behind what stands before them. -/
theorem Tiled.inOrder {before text : List Char} {found : List Token} (tiled : Tiled before text found) :
    InOrder (placeAfter before :: found.map Token.position) := by
  induction tiled with
  | @done before gaps apart =>
    have onwards := (placeAfter before).key_after gaps
    rw [placeAfter_append] at onwards
    exact List.pairwise_pair.mpr onwards
  | @token before gaps piece rest kind tokens apart gapless munch further ih =>
    have onwards := (placeAfter before).key_after gaps
    have later := (placeAfter (before ++ gaps)).key_after piece
    rw [placeAfter_append] at onwards later
    obtain ⟨behind, sorted⟩ := List.pairwise_cons.mp ih
    -- The place of the token stands between that of the gap and those behind it.
    have further : InOrder (placeAfter (before ++ gaps) :: tokens.map Token.position) :=
      List.pairwise_cons.mpr ⟨fun place member => later.trans (behind place member), sorted⟩
    refine List.pairwise_cons.mpr ⟨fun place member => ?_, further⟩
    rcases List.mem_cons.mp member with rfl | member
    · exact onwards
    · exact onwards.trans ((List.pairwise_cons.mp further).1 place member)

namespace Reader

/-- What has been reported and what is left to take stand in the order of the source. -/
structure Ordered (reader : Reader) : Prop where
  /-- The next report is put at the token in hand. -/
  here : reader.checker.position = reader.current.position
  /-- The reports come first, then the tokens. -/
  sorted : InOrder (reader.checker.reports.map Report.position ++
    reader.remaining.map Token.position)

variable {reader next : Reader} {taken : List Token}

/-- A token that is taken is left out. -/
theorem Ordered.step (ordered : reader.Ordered) : reader.step.Ordered := by
  obtain ⟨here, sorted⟩ := ordered
  refine ⟨rfl, ?_⟩
  obtain ⟨current, rest, checker, limit⟩ := reader
  cases rest with
  | nil => exact sorted
  | cons following rest =>
    exact List.Pairwise.sublist ((List.Sublist.refl _).append (List.sublist_cons_self _ _)) sorted

/-- What is reported now stands between earlier reports and the tokens behind. -/
theorem Ordered.acted {checker : Checker} (ordered : reader.Ordered)
    (adds : Checker.Adds (fun _ => True) reader.checker checker) :
    Ordered { reader with checker } := by
  obtain ⟨here, sorted⟩ := ordered
  obtain ⟨position, problems, reports, -⟩ := adds
  refine ⟨position.trans here, ?_⟩
  -- All that is reported in one step is reported at the place in hand.
  have same : ∀ place ∈ (problems.map (Report.mk · reader.checker.position)).map Report.position,
      place = reader.current.position := by
    simpa using fun _ _ => here
  rw [reports, List.map_append]
  exact sorted.repeated same

/-- Going on keeps the order. -/
theorem Goes.ordered (goes : reader.Goes taken next) (ordered : reader.Ordered) : next.Ordered := by
  induction goes with
  | refl => exact ordered
  | take _ _ ih => exact ih ordered.step
  | act adds _ ih => exact ih (ordered.acted adds)

end Reader

/-- Before the tokens of a source nothing has been reported. -/
theorem Tiled.ordered {text : List Char} {found : List Token} (tiled : Tiled [] text found)
    (limit : Nat) : (Reader.before found limit {}).Ordered := by
  have sorted := (List.pairwise_cons.mp tiled.inOrder).2
  cases found with
  | nil => exact absurd rfl tiled.ne_nil
  | cons token rest => exact ⟨rfl, sorted⟩

/-- What has been reported of a unit stands in the order of its tokens, and a failure does not stand
above it. -/
structure Outcome.InOrder {σ : Type} (found : List Token) (outcome : Outcome σ) : Prop where
  /-- No report is at a place before that of an earlier one. -/
  sorted : SmallC.InOrder (outcome.reader.checker.reports.map Report.position)
  /-- Each is at one of the tokens. -/
  placed : ∀ report ∈ outcome.reader.checker.reports, ∃ token ∈ found,
    token.position = report.position
  /-- A failure names a line, which is not above that of any report. -/
  line : ∀ failure, outcome.failure? = some failure → ∃ line, failure.line? = some line ∧
    ∀ report ∈ outcome.reader.checker.reports, report.position.line ≤ line

theorem Tiled.reports {σ : Type} {text : List Char} {found : List Token} (tiled : Tiled [] text found)
    (consume : Consumer σ) (limit : Nat) (output : σ) :
    (readUnit consume found limit output).InOrder found := by
  obtain ⟨taken, named, stopped⟩ := stopped_readUnit consume found limit output
  have ordered := (stopped.goes.ordered (tiled.ordered limit)).sorted
  -- The token that a failure names stands behind the reports.
  obtain ⟨sorted, -, across⟩ := List.pairwise_append.mp ordered
  rw [← stopped.reports] at sorted across
  refine ⟨sorted, fun report member => ?_, fun failure failed => ?_⟩
  · have placed := (readUnit_placed consume tiled.ne_nil limit output).reports report member
    exact List.mem_map.mp placed
  · refine ⟨_, stopped.line failure failed, fun report member => Position.line_le ?_⟩
    exact across _ (List.mem_map_of_mem member) _ List.mem_cons_self

/-- Where a source has tokens, a compilation fails only with the failure of reading them. -/
theorem failure_of_compile {options : Options} {file source : String} {found : List Token}
    {failure : Failure} (lexed : tokensOf source = .ok found)
    (failed : compile options file source = .error failure) :
    (readUnit (generating options.checkOnly) found options.limit {}).failure? = some failure := by
  unfold compile at failed
  simp only [lexed, bind, Except.bind] at failed
  split at failed
  · next stopped =>
    cases failed
    exact stopped
  · cases failed

/-- Reports stand in the order of the source. Whatever becomes of a source that has tokens, and however
deep it may nest, its reports are at its tokens, none of them before an earlier one, and if a failure
stops the reading, the line that it names is not above that of any report. So it is with the diagnostics
of a compilation, and with the failure of one and what has been reported before. -/
theorem reports_in_order {source : String} {found : List Token} (read : tokens source = .ok found) :
    (∀ {σ : Type} (consume : Consumer σ) (limit : Nat) (output : σ),
      (readUnit consume found limit output).InOrder found) ∧
    ∀ (options : Options) (file : String),
      (∀ compilation, compile options file source = .ok compilation →
        ∃ places, InOrder places ∧ (∀ place ∈ places, ∃ token ∈ found, token.position = place) ∧
          compilation.diagnostics.map Diagnostic.location? =
            places.map fun place => some ⟨file, place.line, place.column⟩) ∧
      ∀ failure, compile options file source = .error failure → ∃ line, failure.line? = some line ∧
        ∀ report ∈ (readUnit (generating options.checkOnly) found options.limit
          {}).reader.checker.reports, report.position.line ≤ line := by
  have tiled := tiled_of_tokens read
  have lexed : tokensOf source = .ok found := tokensOf_eq_ok.mpr read
  refine ⟨fun consume limit output => tiled.reports consume limit output, fun options file =>
    ⟨fun compilation compiled => ?_, fun failure failed => ?_⟩⟩
  · obtain ⟨others, again, -, -, diagnostics⟩ := compile_outcome compiled
    obtain rfl := Except.ok.inj (lexed.symm.trans again)
    obtain ⟨sorted, placed, -⟩ := tiled.reports (recording options.checkOnly) options.limit ({}, [])
    refine ⟨_, sorted, fun place member => ?_, ?_⟩
    · obtain ⟨report, reported, rfl⟩ := List.mem_map.mp member
      exact placed report reported
    · rw [diagnostics, List.map_map, List.map_map]
      rfl
  · exact (tiled.reports (generating options.checkOnly) options.limit {}).line failure
      (failure_of_compile lexed failed)

/-- A source with two names that are not declared, and an operator without its operand. -/
def faultySource : String := "int f(void) {
  x;
  y * ;
}"

/-- Its tokens. -/
def faultyTokens : List Token := (tokens faultySource).toOption.getD []

set_option maxRecDepth 4000 in
/-- Each name is reported at the token behind it, and the failure names the line of the second one. -/
theorem reports_in_order_faulty : tokens faultySource = .ok faultyTokens ∧
    (readUnit ignoring faultyTokens defaultLimit ()).reader.checker.reports.map Report.position =
      [⟨2, 4⟩, ⟨3, 5⟩] ∧
    (readUnit ignoring faultyTokens defaultLimit ()).InOrder faultyTokens ∧
    compile {} "a.c" faultySource = .error (.unexpectedToken 3 ";") ∧
    ∃ line, (Failure.unexpectedToken 3 ";").line? = some line ∧
      ∀ report ∈ (readUnit (generating false) faultyTokens defaultLimit {}).reader.checker.reports,
        report.position.line ≤ line := by
  have read : tokens faultySource = .ok faultyTokens := by cbv
  have failed : compile {} "a.c" faultySource = .error (.unexpectedToken 3 ";") := by cbv
  obtain ⟨ordered, compiled⟩ := reports_in_order read
  exact ⟨read, by cbv, ordered ignoring defaultLimit (), failed, (compiled {} "a.c").2 _ failed⟩

end SmallC
