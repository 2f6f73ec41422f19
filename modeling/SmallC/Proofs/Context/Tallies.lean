import SmallC.Proofs.Context.Steady

/-! Counting the levels that are open and handing down those that are left come to the same, and either
way the context is found again as it was. -/

namespace SmallC

namespace Counted

variable {α β : Type} {strict : Prop} {before : Context}

/-- A counted reading does what a reading does that is handed the levels that are left, and both take
their context to another one. The depth is given back where this is strict, and inside of a chain of
operators it need not be. -/
def Tallies (strict : Prop) (before : Context) (counted : Counted α) (reading : Reading α)
    (after : α → Context) : Prop :=
  ∀ reader, Meter.context ⟨reader, before.depth⟩ = before →
    match reading reader with
    | .ok value next => ∃ depth, counted ⟨reader, before.depth⟩ = .ok value ⟨next, depth⟩ ∧
        Meter.context ⟨next, (after value).depth⟩ = after value ∧
          (strict → depth = (after value).depth)
    | .error failure next => ∃ depth, counted ⟨reader, before.depth⟩ = .error failure ⟨next, depth⟩ ∧
        next.checker.loops = before.loops ∧ (strict → depth = before.depth)

/-- The depth is given back, and the context with it. -/
abbrev Restores (before : Context) (counted : Counted α) (reading : Reading α) : Prop :=
  Tallies True before counted reading fun _ => before

theorem leaving_ok {leave : Meter → Meter} {body : Counted α} {meter after : Meter} {value : α}
    (ran : body meter = .ok value after) : leaving leave body meter = .ok value (leave after) := by
  unfold leaving
  rw [ran]

theorem leaving_error {leave : Meter → Meter} {body : Counted α} {meter after : Meter}
    {failure : Failure} (ran : body meter = .error failure after) :
    leaving leave body meter = .error failure (leave after) := by
  unfold leaving
  rw [ran]

namespace Tallies

/-- A step that opens no level. -/
theorem plain {action : Reading α} {after : α → Context}
    (shifts : Reading.Shifts before action after)
    (same : ∀ value, (after value).depth = before.depth) :
    Tallies strict before (Counted.plain action) action after := by
  intro reader here
  have done := shifts reader here
  unfold Counted.plain
  -- No level is opened, so the depth that is left is the one there was.
  cases read : action reader with
  | error failure next =>
    rw [read] at done
    exact ⟨before.depth, rfl, done, fun _ => rfl⟩
  | ok value next =>
    rw [read] at done
    refine ⟨before.depth, rfl, ?_, fun _ => (same value).symm⟩
    rw [same value]
    exact done

theorem steady {action : Reading α} (steady : Reading.Steady action) :
    Tallies strict before (Counted.plain action) action fun _ => before :=
  plain (steady before) fun _ => rfl

/-- One reading after the other, the depth being given back in between. -/
theorem bind {first : Counted α} {reading : Reading α} {next : α → Counted β}
    {further : α → Reading β} {middle : α → Context} {after : β → Context}
    (begins : Tallies True before first reading middle)
    (rest : ∀ value, Tallies strict (middle value) (next value) (further value) after)
    (same : ∀ value, (middle value).depth = before.depth ∧ (middle value).loops = before.loops) :
    Tallies strict before (first >>= next) (reading >>= further) after := by
  intro reader here
  have begun := begins reader here
  change match EStateM.bind reading further reader with
    | .ok value last => ∃ depth, EStateM.bind first next ⟨reader, before.depth⟩ = _ ∧ _
    | .error failure last => ∃ depth, EStateM.bind first next ⟨reader, before.depth⟩ = _ ∧ _
  unfold EStateM.bind
  cases read : reading reader with
  | error failure last =>
    rw [read] at begun
    obtain ⟨depth, counted, loops, given⟩ := begun
    rw [counted]
    exact ⟨depth, rfl, loops, fun _ => given trivial⟩
  | ok value last =>
    rw [read] at begun
    obtain ⟨depth, counted, between, given⟩ := begun
    obtain ⟨unmoved, loops⟩ := same value
    -- What follows starts at the depth that was given back.
    obtain rfl := given trivial
    have ended := rest value last between
    rw [counted]
    rw [unmoved, loops] at ended
    rw [unmoved]
    exact ended

/-- What follows a reading that gives the context back starts from the same one. -/
theorem next {first : Counted α} {reading : Reading α} {next : α → Counted β}
    {further : α → Reading β} {after : β → Context} (begins : Restores before first reading)
    (rest : ∀ value, Tallies strict before (next value) (further value) after) :
    Tallies strict before (first >>= next) (reading >>= further) after :=
  begins.bind rest fun _ => ⟨rfl, rfl⟩

theorem pure (value : α) :
    Tallies strict before (Pure.pure value : Counted α) (Pure.pure value) fun _ => before :=
  fun _ here => ⟨before.depth, rfl, here, fun _ => rfl⟩

theorem discard {counted : Counted α} {reading : Reading α} (restores : Restores before counted reading) :
    Restores before (Functor.discard counted) (Functor.discard reading) :=
  restores.next fun _ => .pure _

/-- A step whose value does not matter may come first. -/
theorem skip {action : Reading α} {next : Counted β} {further : Reading β} {after : β → Context}
    (steady : Reading.Steady action) (rest : Tallies strict before next further after) :
    Tallies strict before (do Functor.discard (Counted.plain action); next)
      (do Functor.discard action; further) after :=
  (discard (.steady steady)).next fun _ => rest

/-- What follows may depend on the reader. -/
theorem get {next : Meter → Counted β} {further : Reader → Reading β} {after : β → Context}
    (rest : ∀ reader, Meter.context ⟨reader, before.depth⟩ = before →
      Tallies strict before (next ⟨reader, before.depth⟩) (further reader) after) :
    Tallies strict before (MonadState.get >>= next) (MonadState.get >>= further) after :=
  fun reader here => rest reader here reader here

/-- What follows may depend on the kind of the token in hand. -/
theorem kind {next : TokenKind → Counted β} {further : TokenKind → Reading β} {after : β → Context}
    (rest : ∀ found, Tallies strict before (next found) (further found) after) :
    Tallies strict before (Counted.plain Reading.kind >>= next) (Reading.kind >>= further) after :=
  Tallies.next (.steady .kind) rest

/-! Levels. -/

/-- At the limit no further level is opened. -/
theorem spent {next : PUnit → Counted α} {after : α → Context} (none : before.levels = 0) :
    Tallies strict before (deepen >>= next) Reading.tooDeep after := by
  intro reader here
  have limit : reader.limit = before.limit := congrArg Context.limit here
  -- No level left means that the depth has reached the limit.
  have full : reader.limit ≤ before.depth := limit ▸ Nat.le_of_sub_eq_zero none
  refine ⟨before.depth, ?_, congrArg Context.loops here, fun _ => rfl⟩
  change EStateM.bind deepen next _ = _
  unfold EStateM.bind deepen
  rw [if_pos full]
  rfl

/-- Below the limit a level is opened. -/
theorem deepen_eq {levels : Nat} {reader : Reader} (left : before.levels = levels + 1)
    (here : Meter.context ⟨reader, before.depth⟩ = before) :
    deepen ⟨reader, before.depth⟩ = .ok ⟨⟩ ⟨reader, before.deeper.depth⟩ := by
  have limit : reader.limit = before.limit := congrArg Context.limit here
  unfold Context.levels at left
  unfold deepen
  rw [if_neg (by dsimp only; omega)]
  rfl

/-- A level that is opened leaves one less. -/
theorem levels_deeper {levels : Nat} (left : before.levels = levels + 1) :
    before.deeper.levels = levels := by
  unfold Context.levels Context.deeper at *
  dsimp only
  omega

/-- One level up, the context is the one before. -/
theorem context_deeper {reader : Reader} (here : Meter.context ⟨reader, before.deeper.depth⟩ = before.deeper) :
    Meter.context ⟨reader, before.depth⟩ = before :=
  congrArg (fun context : Context => { context with depth := context.depth - 1 }) here

/-- Where reading goes on one level deeper, a level is opened first. -/
theorem bind_deepen {next : PUnit → Counted α} {levels : Nat} {reader : Reader}
    (left : before.levels = levels + 1) (here : Meter.context ⟨reader, before.depth⟩ = before) :
    (deepen >>= next) ⟨reader, before.depth⟩ = next ⟨⟩ ⟨reader, before.deeper.depth⟩ := by
  change EStateM.bind deepen next _ = _
  unfold EStateM.bind
  rw [deepen_eq left here]

/-- A level that is opened is closed again. -/
theorem nested {counted : Counted α} {reading : Reading α} {levels : Nat}
    (left : before.levels = levels + 1) (body : Restores before.deeper counted reading) :
    Restores before (Counted.nested counted) reading := by
  intro reader here
  have done := body reader (congrArg Context.deeper here)
  unfold Counted.nested
  rw [bind_deepen left here]
  -- The level is left whichever way the body ends.
  cases read : reading reader with
  | error failure last =>
    rw [read] at done
    obtain ⟨depth, ran, loops, given⟩ := done
    obtain rfl := given trivial
    exact ⟨before.depth, leaving_error ran, loops, fun _ => rfl⟩
  | ok value last =>
    rw [read] at done
    obtain ⟨depth, ran, after, given⟩ := done
    obtain rfl := given trivial
    exact ⟨before.depth, leaving_ok ran, context_deeper after, fun _ => rfl⟩

/-- A part that is read one level deeper is read where a level is left, and fails elsewhere. -/
theorem level {counted : Nat → Counted α} {reading : Nat → Reading α} {clock : Nat}
    (enough : before.levels ≤ clock)
    (body : ∀ less, clock = less + 1 → before.deeper.levels ≤ less →
      Restores before.deeper (counted less) (reading before.deeper.levels)) :
    Restores before
      (match clock with
        | 0 => Counted.plain Reading.tooDeep
        | less + 1 => Counted.nested (counted less))
      (match before.levels with
        | 0 => Reading.tooDeep
        | levels + 1 => reading levels) := by
  match clock, enough, body with
  | 0, enough, _ =>
    rw [Nat.le_zero.mp enough]
    exact .steady .tooDeep
  | less + 1, enough, body =>
    -- The one fails at the limit, the other where no level is left, which is the same place.
    cases left : before.levels with
    | zero => exact .spent left
    | succ levels =>
      obtain rfl := levels_deeper left
      exact .nested left (body less rfl (by omega))

/-- Inside of a chain a level may be opened and left open. -/
theorem deepens {counted : Counted α} {reading : Reading α} {levels : Nat}
    (left : before.levels = levels + 1)
    (rest : Tallies False before.deeper counted reading fun _ => before.deeper) :
    Tallies False before (deepen >>= fun _ => counted) reading fun _ => before := by
  intro reader here
  have done := rest reader (congrArg Context.deeper here)
  rw [bind_deepen left here]
  -- The claim on the depth is empty in a chain, so the level need not be left.
  cases read : reading reader with
  | error failure last =>
    rw [read] at done
    obtain ⟨depth, ran, loops, -⟩ := done
    exact ⟨depth, ran, loops, False.elim⟩
  | ok value last =>
    rw [read] at done
    obtain ⟨depth, ran, after, -⟩ := done
    exact ⟨depth, ran, context_deeper after, False.elim⟩

/-- A link of a chain opens a level, unless none is left. -/
theorem link {counted : Nat → Counted α} {reading : Nat → Reading α} {clock : Nat}
    (enough : before.levels ≤ clock)
    (rest : ∀ less, clock = less + 1 → before.deeper.levels ≤ less →
      Tallies False before.deeper (counted less) (reading before.deeper.levels)
        fun _ => before.deeper) :
    Tallies False before
      (match clock with
        | 0 => Counted.plain Reading.tooDeep
        | less + 1 => deepen >>= fun _ => counted less)
      (match before.levels with
        | 0 => Reading.tooDeep
        | levels + 1 => reading levels) fun _ => before := by
  -- The clock and the levels run down together; the levels may be spent first.
  match clock, enough, rest with
  | 0, enough, _ =>
    rw [Nat.le_zero.mp enough]
    exact .steady .tooDeep
  | less + 1, enough, rest =>
    cases left : before.levels with
    | zero => exact .spent left
    | succ levels =>
      obtain rfl := levels_deeper left
      exact .deepens left (rest less rfl (by omega))

/-- At its end a chain gives back all the levels it has opened. -/
theorem chain {counted : Counted α} {reading : Reading α}
    (body : Tallies False before counted reading fun _ => before) :
    Restores before (Counted.chain counted) reading := by
  intro reader here
  have done := body reader here
  unfold Counted.chain
  cases read : reading reader with
  | error failure last =>
    rw [read] at done
    obtain ⟨depth, ran, loops, -⟩ := done
    exact ⟨before.depth, leaving_error ran, loops, fun _ => rfl⟩
  | ok value last =>
    rw [read] at done
    -- Whatever depth the links have reached is replaced by that before the chain.
    obtain ⟨depth, ran, after, -⟩ := done
    exact ⟨before.depth, leaving_ok ran, after, fun _ => rfl⟩

/-- A loop is left however its body ends. -/
theorem insideLoop {counted : Counted α} {reading : Reading α}
    (body : Restores before.turn counted reading) :
    Restores before (Counted.insideLoop counted) (Reading.insideLoop reading) := by
  intro reader here
  have done := body { reader with checker := reader.checker.enterLoop } (congrArg Context.turn here)
  unfold Counted.insideLoop Reading.insideLoop
  cases read : reading { reader with checker := reader.checker.enterLoop } with
  | error failure last =>
    rw [read] at done
    obtain ⟨depth, ran, loops, given⟩ := done
    obtain rfl := given trivial
    -- Leaving takes back the one loop that entering has added, after a failure as well.
    exact ⟨before.depth, leaving_error ran, congrArg Nat.pred loops, fun _ => rfl⟩
  | ok value last =>
    rw [read] at done
    obtain ⟨depth, ran, after, given⟩ := done
    obtain rfl := given trivial
    exact ⟨before.depth, leaving_ok ran,
      congrArg (fun context : Context => { context with loops := context.loops - 1 }) after,
      fun _ => rfl⟩

/-! Scopes. -/

/-- A scope is opened around what follows. -/
theorem openScope {next : ScopeId → Counted α} {further : ScopeId → Reading α} {after : α → Context}
    (rest : ∀ scope, Tallies strict (before.inside scope) (next scope) (further scope) after) :
    Tallies strict before (Counted.plain (Reading.act Checker.openScope) >>= next)
      (Reading.act Checker.openScope >>= further) after :=
  bind (plain (Reading.shifts_openScope before) fun _ => rfl) rest fun _ => ⟨rfl, rfl⟩

/-- The scope that is closed is the one that was opened last. -/
theorem closeScope {scope : ScopeId} {next : ScopeId → Counted α} {further : ScopeId → Reading α}
    {after : α → Context}
    (rest : ∀ closed, Tallies strict before (next closed) (further closed) after) :
    Tallies strict (before.inside scope) (Counted.plain (Reading.act Checker.closeScope) >>= next)
      (Reading.act Checker.closeScope >>= further) after :=
  bind (plain (Reading.shifts_closeScope (before.inside scope)) fun _ => rfl) rest
    fun _ => ⟨rfl, rfl⟩

/-! Runs. -/

theorem whileAt (test : TokenKind → Bool) {counted : Counted α} {reading : Reading α}
    (each : Restores before counted reading) (clock : List Token) :
    Restores before (Counted.whileAt test counted clock) (Reading.whileAt test reading clock) := by
  -- Each turn of either loop takes one token off the clock.
  induction clock with
  | nil =>
    refine .kind fun found => ?_
    split
    · exact .steady .unexpected
    · exact .pure _
  | cons _ clock ih =>
    refine .kind fun found => ?_
    split
    · exact each.next fun _ => ih.next fun _ => .pure _
    · exact .pure _

theorem many (test : TokenKind → Bool) {counted : Counted α} {reading : Reading α}
    (each : Restores before counted reading) :
    Restores before (Counted.many test counted) (Reading.many test reading) :=
  .get fun _ _ => .whileAt test each _

theorem commaSeparated {counted : Counted α} {reading : Reading α}
    (each : Restores before counted reading) :
    Restores before (Counted.commaSeparated counted) (Reading.commaSeparated reading) :=
  each.next fun _ => (many _ (skip .advance each)).next fun _ => .pure _

theorem callArguments {counted : Counted Expression} {reading : Reading Expression}
    (each : Restores before counted reading) :
    Restores before (Counted.callArguments counted) (Reading.callArguments reading) := by
  refine .kind fun found => ?_
  split
  · exact .pure _
  · exact .commaSeparated each

end Tallies

end Counted

end SmallC
