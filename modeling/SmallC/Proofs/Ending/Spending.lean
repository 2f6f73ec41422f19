import SmallC.Proofs.Ending.Metered
import SmallC.Proofs.Ending.Travels

/-! Spending: every token that is taken pays for a number of steps, and what a part of reading makes of
steps beyond that is bounded, whether it succeeds or fails. -/

namespace SmallC

/-- The steps that a token pays for. -/
def price : Int := 32

namespace Metered

variable {α β : Type} {turns least most : Nat} {gain more loss fault : Int} {here : Option TokenKind}
  {reader : Reader} {steps : Nat}

/-- A counted part of reading does what the plain one does. Where it succeeds it has taken so many tokens
at least, and they pay for its steps with so much to spare; where it fails, they pay for all but so
many. -/
inductive Paid (reader : Reader) (steps : Nat) (least : Nat) (gain loss : Int) :
    EStateM.Result Halt Gauge α → EStateM.Result Failure Reader α → Prop where
  /-- Both have succeeded alike. -/
  | ok {value : α} {next : Reader} {taken spent : Nat} (travels : reader.Travels taken next)
    (enough : least ≤ taken) (within : spent + gain ≤ price * taken) :
    Paid reader steps least gain loss (.ok value ⟨next, steps + spent⟩) (.ok value next)
  /-- Both have failed alike. -/
  | error {failure : Failure} {next : Reader} {taken spent : Nat}
    (travels : reader.Travels taken next) (within : spent ≤ price * taken + loss) :
    Paid reader steps least gain loss (.error (.failed failure) ⟨next, steps + spent⟩)
      (.error failure next)

/-- From a token of the given kind, or from any if none is given, a counted part of reading does what the
plain one does at such expense, as long as the loops may turn more often than tokens are ahead. -/
def Spends (turns : Nat) (here : Option TokenKind) (least : Nat) (gain loss : Int)
    (metered : Metered α) (reading : Reading α) : Prop :=
  ∀ reader steps, reader.distance < turns → (∀ kind ∈ here, reader.current.kind = kind) →
    Paid reader steps least gain loss (metered ⟨reader, steps⟩) (reading reader)

/-- What may start at any token is paid for wherever it starts. -/
theorem Spends.paid {metered : Metered α} {reading : Reading α}
    (spends : Spends turns none least gain loss metered reading) (near : reader.distance < turns)
    (steps : Nat) :
    Paid reader steps least gain loss (metered ⟨reader, steps⟩) (reading reader) := by
  apply spends reader steps near
  intro kind known
  cases known

/-- A step may be counted in advance. -/
theorem Paid.later {one : EStateM.Result Halt Gauge α} {two : EStateM.Result Failure Reader α}
    (paid : Paid reader (steps + 1) least (gain + 1) (loss - 1) one two) :
    Paid reader steps least gain loss one two := by
  cases paid with
  | ok travels enough within =>
    rw [Nat.add_assoc]
    exact .ok travels enough (by omega)
  | error travels within =>
    rw [Nat.add_assoc]
    exact .error travels (by omega)

/-- The checker may have acted before. -/
theorem Paid.acted {checker : Checker} {one : EStateM.Result Halt Gauge α}
    {two : EStateM.Result Failure Reader α} (stays : reader.checker.Stays checker)
    (paid : Paid { reader with checker } steps least gain loss one two) :
    Paid reader steps least gain loss one two := by
  cases paid with
  | ok travels enough within => exact .ok (.act stays travels) enough within
  | error travels within => exact .error (.act stays travels) within

/-- What is done already costs nothing. -/
theorem Paid.idle (value : α) (nothing : least = 0) (free : gain ≤ 0) :
    Paid reader steps least gain loss (.ok value ⟨reader, steps⟩) (.ok value reader) := by
  have paid : Paid reader steps least gain loss (.ok value ⟨reader, steps + 0⟩) (.ok value reader) :=
    .ok (.refl reader) (by omega) (by simpa using free)
  exact paid

/-- What follows a part that was paid for may spend what is left. -/
theorem Paid.andThen {metered : Metered α} {reading : Reading α} {next : α → Metered β}
    {further : α → Reading β}
    (first : Paid reader steps least gain fault (metered ⟨reader, steps⟩) (reading reader))
    (fits : fault ≤ loss)
    (rest : ∀ value after taken steps, reader.Travels taken after → least ≤ taken →
      Paid after steps (most - least) (more - gain) (loss + gain) (next value ⟨after, steps⟩)
        (further value after)) :
    Paid reader steps most more loss ((metered >>= next) ⟨reader, steps⟩)
      ((reading >>= further) reader) := by
  change Paid reader steps most more loss (EStateM.bind metered next ⟨reader, steps⟩)
    (EStateM.bind reading further reader)
  -- The steps of the second part are counted from where the first one stopped.
  unfold EStateM.bind
  generalize metered ⟨reader, steps⟩ = one, reading reader = two at first
  cases first with
  | error travels within => exact .error travels (by omega)
  | @ok value after taken spent travels enough within =>
    dsimp only
    have ended := rest value after taken (steps + spent) travels enough
    generalize next value ⟨after, steps + spent⟩ = one, further value after = two at ended
    cases ended with
    | ok further enough within =>
      rw [Nat.add_assoc]
      refine .ok (travels.trans further) (by omega) ?_
      rw [Int.natCast_add, Int.natCast_add, Int.mul_add]
      omega
    | error further within =>
      rw [Nat.add_assoc]
      refine .error (travels.trans further) ?_
      rw [Int.natCast_add, Int.natCast_add, Int.mul_add]
      omega

namespace Spends

/-- With fewer tokens ahead nothing changes. -/
theorem closer {metered : Metered α} {reading : Reading α} {bound : Nat} (fewer : bound ≤ turns)
    (spends : Spends turns here least gain loss metered reading) :
    Spends bound here least gain loss metered reading :=
  fun reader steps near known => spends reader steps (by omega) known

/-- What follows a part that takes tokens has fewer of them ahead. -/
theorem bindCloser {metered : Metered α} {reading : Reading α} {next : α → Metered β}
    {further : α → Reading β} (first : Spends turns here least gain fault metered reading)
    (fits : fault ≤ loss)
    (rest : ∀ value, Spends (turns - least) none (most - least) (more - gain) (loss + gain)
      (next value) (further value)) :
    Spends turns here most more loss (metered >>= next) (reading >>= further) := by
  intro reader steps near known
  refine (first reader steps near known).andThen fits fun value after taken steps travels enough => ?_
  have closer := travels.sight.2
  exact (rest value).paid (by omega) steps

theorem bind {metered : Metered α} {reading : Reading α} {next : α → Metered β}
    {further : α → Reading β} (first : Spends turns here least gain fault metered reading)
    (fits : fault ≤ loss)
    (rest : ∀ value, Spends turns none (most - least) (more - gain) (loss + gain) (next value)
      (further value)) :
    Spends turns here most more loss (metered >>= next) (reading >>= further) :=
  first.bindCloser fits fun value => (rest value).closer (Nat.sub_le _ _)

/-- Less may be asked for. -/
theorem within {metered : Metered α} {reading : Reading α}
    (spends : Spends turns here least gain fault metered reading) (fewer : most ≤ least)
    (cheaper : more ≤ gain) (fits : fault ≤ loss) :
    Spends turns here most more loss metered reading := by
  -- What is taken and spent is the same, and it is held against weaker bounds.
  intro reader steps near known
  have paid := spends reader steps near known
  generalize metered ⟨reader, steps⟩ = one, reading reader = two at paid
  cases paid with
  | ok travels enough within => exact .ok travels (by omega) (by omega)
  | error travels within => exact .error travels (by omega)

theorem pure (value : α) (nothing : least = 0) (free : gain ≤ 0) :
    Spends turns here least gain loss (Pure.pure value) (Pure.pure value) :=
  fun _ _ _ _ => .idle value nothing free

theorem discard {metered : Metered α} {reading : Reading α}
    (spends : Spends turns here least gain loss metered reading) :
    Spends turns here least gain loss (Functor.discard metered) (Functor.discard reading) :=
  spends.bind (Int.le_refl loss) fun _ => .pure _ (Nat.sub_self least) (by omega)

/-- A part whose value does not matter may come first. -/
theorem skip {metered : Metered α} {reading : Reading α} {next : Metered β} {further : Reading β}
    (first : Spends turns here least gain fault metered reading) (fits : fault ≤ loss)
    (rest : Spends turns none (most - least) (more - gain) (loss + gain) next further) :
    Spends turns here most more loss (do Functor.discard metered; next)
      (do Functor.discard reading; further) :=
  first.discard.bind fits fun _ => rest

/-- What follows may depend on the reader. -/
theorem look {next : Reader → Metered β} {further : Reader → Reading β}
    (rest : ∀ reader, Spends turns here least gain loss (next reader) (further reader)) :
    Spends turns here least gain loss (Metered.look >>= next) (MonadState.get >>= further) :=
  fun reader steps near known => rest reader reader steps near known

/-! Single steps. -/

/-- What follows a look at the token in hand knows its kind. -/
theorem kind {next : TokenKind → Metered α} {further : TokenKind → Reading α}
    (rest : ∀ found, Spends turns (some found) least (gain + 1) (loss - 1) (next found) (further found)) :
    Spends turns here least gain loss (once Reading.kind >>= next) (Reading.kind >>= further) := by
  intro reader steps near known
  exact (rest reader.current.kind reader (steps + 1) near fun _ same => Option.some.inj same).later

/-- A token that does not end the source may be taken. -/
theorem advance {kind : TokenKind} (further : kind ≠ .done) :
    Spends turns (some kind) 1 31 0 (once Reading.advance) Reading.advance := by
  -- Of its price a token pays one step for being taken.
  intro reader steps near known
  have held := known kind rfl
  exact .ok (.once (held ▸ further)) (Nat.le_refl 1) (by decide)

/-- A failure takes a step. -/
theorem fails {action : Reading α} (failure : Reader → Failure) (fits : 1 ≤ loss)
    (fails : ∀ reader, action reader = .error (failure reader) reader) :
    Spends turns here least gain loss (once action) action := by
  intro reader steps near known
  have failed : once action ⟨reader, steps⟩ = .error (.failed (failure reader)) ⟨reader, steps + 1⟩ := by
    unfold once
    rw [fails]
  rw [failed, fails]
  exact .error (.refl reader) (by omega)

theorem unexpected (fits : 1 ≤ loss) :
    Spends turns here least gain loss (once Reading.unexpected : Metered α) Reading.unexpected :=
  fails _ fits fun _ => rfl

theorem tooDeep (fits : 1 ≤ loss) :
    Spends turns here least gain loss (once Reading.tooDeep : Metered α) Reading.tooDeep :=
  fails _ fits fun _ => rfl

theorem throw (failure : Failure) (fits : 1 ≤ loss) :
    Spends turns here least gain loss (once (MonadExcept.throw failure) : Metered α)
      (MonadExcept.throw failure) :=
  fails (fun _ => failure) fits fun _ => rfl

/-- The checker acts in one step. -/
theorem act {action : Checker → α × Checker}
    (stays : ∀ checker, Checker.Stays checker (action checker).2) :
    Spends turns here 0 (-1) 0 (once (Reading.act action)) (Reading.act action) := by
  intro reader steps near known
  exact .ok (.acts (stays reader.checker)) (Nat.le_refl 0) (by decide)

theorem check (verdict : Verdict α) :
    Spends turns here 0 (-1) 0 (once (Reading.check verdict)) (Reading.check verdict) :=
  act (Checker.stays_record verdict)

/-- A verdict that is recorded leaves the token in hand. -/
theorem judged (verdict : Verdict α) {next : α → Metered β} {further : α → Reading β}
    (rest : ∀ value, Spends turns here least (gain + 1) (loss - 1) (next value) (further value)) :
    Spends turns here least gain loss (once (Reading.check verdict) >>= next)
      (Reading.check verdict >>= further) := by
  intro reader steps near known
  exact .later (.acted (Checker.stays_record verdict reader.checker)
    (rest verdict.node { reader with checker := _ } (steps + 1) near known))

theorem startsTypeName :
    Spends turns here 0 (-1) 0 (once Reading.startsTypeName) Reading.startsTypeName := by
  intro reader steps near known
  exact .ok (.refl reader) (Nat.le_refl 0) (by decide)

theorem adjust {change : Checker → Checker} (stays : ∀ checker, Checker.Stays checker (change checker)) :
    Spends turns here 0 (-1) 0 (once (Reading.adjust change)) (Reading.adjust change) :=
  act stays

/-- A token of the given kind is taken, if it is one that can be. -/
theorem expect {wanted : TokenKind} (further : wanted ≠ .done) :
    Spends turns here 1 30 2 (Metered.expect wanted) (Reading.expect wanted) := by
  -- One step for the look and one for the token or the failure.
  refine kind fun found => ?_
  split
  · next same =>
    subst same
    exact (advance further).within (by decide) (by decide) (by decide)
  · exact unexpected (by decide)

/-! Loops. -/

/-- A loop takes a token with every turn or stops, and what its items have to spare pays for the turns.
Items that may be tried at the end of the source take two tokens, so that the clock of the plain loop
does not run out first. -/
theorem whileAt {test : TokenKind → Bool} {metered : Metered α} {reading : Reading α}
    (each : ∀ found, test found = true →
      Spends turns (some found) least gain loss metered reading)
    (some : 1 ≤ least) (pays : 1 ≤ gain) (twice : test .done = true → 2 ≤ least) {bound left : Nat}
    {clock : List Token} (near : bound ≤ left) (turning : bound ≤ turns)
    (lasting : bound ≤ clock.length + 1) (ticking : test .done = true → 1 ≤ bound → clock ≠ []) :
    Spends bound here 0 (-1) (loss + 1) (Metered.whileAt test metered left)
      (Reading.whileAt test reading clock) := by
  -- The induction is on the turns that are left; the bound on the tokens ahead falls with them.
  induction left generalizing bound clock here with
  | zero => exact fun reader steps closer _ => absurd closer (by omega)
  | succ left ih =>
    cases clock with
    | nil =>
      refine kind fun found => ?_
      cases passes : test found with
      | false => exact .pure _ (by decide) (by decide)
      | true =>
        -- Nothing is ahead, and the clock has not run out where the end passes the test.
        intro reader steps closer known
        have bounded : bound ≤ 1 := lasting
        have done : reader.current.kind = .done := Reader.distance_eq_zero.mp (by omega)
        rw [known found rfl] at done
        exact absurd rfl (ticking (done ▸ passes) (by omega))
    | cons tick clock =>
      refine kind fun found => ?_
      cases passes : test found with
      | false => exact .pure _ (by decide) (by decide)
      | true =>
        have longer : bound ≤ clock.length + 1 + 1 := lasting
        refine ((each found passes).closer turning).bindCloser (by omega) fun first => ?_
        have lasts : test .done = true → 1 ≤ bound - least → clock ≠ [] := by
          rintro passes left rfl
          have two := twice passes
          simp at longer
          omega
        have further : Spends (bound - least) none 0 (-1) (loss + 1)
            (Metered.whileAt test metered left) (Reading.whileAt test reading clock) :=
          ih (by omega) (by omega) (by omega) lasts
        exact further.bind (by omega) fun others => .pure _ (by omega) (by omega)

/-- A loop takes a token with every turn or stops. -/
theorem many {test : TokenKind → Bool} {metered : Metered α} {reading : Reading α}
    (each : ∀ found, test found = true →
      Spends turns (some found) least gain loss metered reading)
    (some : 1 ≤ least) (pays : 1 ≤ gain) (twice : test .done = true → 2 ≤ least) :
    Spends turns here 0 (-1) (loss + 1) (Metered.whileAt test metered turns)
      (Reading.many test reading) := by
  intro reader steps near known
  have loop : Spends (reader.distance + 1) none 0 (-1) (loss + 1) (Metered.whileAt test metered turns)
      (Reading.whileAt test reading reader.remaining) :=
    whileAt each some pays twice near near (Nat.succ_le_succ reader.distance_le)
      fun _ _ => List.cons_ne_nil _ _
  exact loop.paid (Nat.lt_succ_self _) steps

/-- Items after commas pay for the commas. -/
theorem commaSeparated {metered : Metered α} {reading : Reading α}
    (each : ∀ here, Spends turns here 1 gain loss metered reading) (pays : 1 ≤ gain)
    (fits : 0 ≤ loss) :
    Spends turns here 1 (gain - 1) (loss + 1) (Metered.commaSeparated metered turns)
      (Reading.commaSeparated reading) := by
  -- Every further item comes with its comma, which makes two tokens a turn.
  refine (each here).bind (by omega) fun first => ?_
  have further : ∀ found, (decide (found = TokenKind.comma)) = true →
      Spends turns (some found) 2 (31 + gain) loss
        (do Functor.discard (once Reading.advance); metered)
        (do Functor.discard Reading.advance; reading) := by
    intro found same
    obtain rfl := of_decide_eq_true same
    exact (advance (by decide)).skip fits ((each none).within (by decide) (by omega) (by omega))
  refine (many further (by decide) (by omega) (by decide)).bind (by omega) fun others => ?_
  exact .pure _ (by decide) (by omega)

/-- Entering and leaving a loop takes no steps. -/
theorem insideLoop {metered : Metered α} {reading : Reading α}
    (body : Spends turns here least gain loss metered reading) :
    Spends turns here least gain loss (Metered.insideLoop metered) (Reading.insideLoop reading) := by
  -- Only the count of open loops changes on the way in and out, and no token is taken.
  intro reader steps near known
  have enters : reader.checker.Stays reader.checker.enterLoop := Checker.stays_of_eq rfl rfl
  have leaves (checker : Checker) : checker.Stays checker.leaveLoop := Checker.stays_of_eq rfl rfl
  have paid := body { reader with checker := reader.checker.enterLoop } steps near known
  unfold Metered.insideLoop Reading.insideLoop
  dsimp only
  generalize metered ⟨{ reader with checker := reader.checker.enterLoop }, steps⟩ = one,
    reading { reader with checker := reader.checker.enterLoop } = two at paid
  cases paid with
  | ok travels enough within =>
    exact .ok (.act enters (travels.trans (.acts (leaves _)))) enough within
  | error travels within =>
    exact .error (.act enters (travels.trans (.acts (leaves _)))) within

end Spends

end Metered

end SmallC
