import SmallC.Compile
import SmallC.Proofs.Derivations.CompleteUnits
import SmallC.Proofs.Derivations.UnambiguousUnits
import SmallC.Proofs.Source.Tiling

/-! Reading recognises the grammar: exactly the sentences are read where nesting is not limited too
much, and what is handed on is what checking makes of their one derivation. -/

namespace SmallC

/-! The tokens of a source end where the source does. -/

/-- A lexeme comes before tokens that end as they should. -/
theorem Tiled.ended {before text : List Char} {tokens : List Token} (tiled : Tiled before text tokens) :
    Ended tokens := by
  induction tiled with
  | done => simp [Ended, Token.atEnd]
  | token _ _ munch _ ih =>
    rw [Ended, if_neg munch.lexeme.ne_done]
    exact ih

theorem tokensOf_eq_ok {source : String} {found : List Token} :
    tokensOf source = .ok found ↔ tokens source = .ok found := by
  unfold tokensOf
  cases tokens source with
  | error fault => simp [Except.mapError]
  | ok listed => simp [Except.mapError]

/-- Every source that has tokens has them end with the source. -/
theorem ended_tokensOf {source : String} {found : List Token} (lexed : tokensOf source = .ok found) :
    Ended found :=
  (tiled_of_tokens (tokensOf_eq_ok.mp lexed)).ended

/-! A unit is read declaration by declaration. -/

/-- A unit that is read to its end has a derivation as far as a reader sees, which has been checked in
order. -/
theorem readDeclarations_derives {σ : Type} (consume : Consumer σ) (clock : List Token) :
    ∀ reader output, (readDeclarations consume clock reader output).failure? = none →
      ∃ globals, DerivesUnit reader.outlook.tokens globals ∧
        Global.elaborateAll consume globals reader.checker.unplaced output =
          ((readDeclarations consume clock reader output).reader.checker.unplaced,
            (readDeclarations consume clock reader output).output) := by
  -- At the end nothing is left but the end.
  have finished (reader : Reader) (done : reader.current.kind = .done) :
      DerivesUnit reader.outlook.tokens [] := by
    refine ⟨reader.current, done, ?_⟩
    rw [Reader.outlook, upToEnd_done done]
    exact .nil _
  induction clock with
  | nil =>
    intro reader output success
    simp only [readDeclarations] at success ⊢
    split at success
    · next done => exact ⟨[], finished reader done, by rw [if_pos done]; rfl⟩
    · cases success
  | cons token clock ih =>
    intro reader output success
    rw [readDeclarations] at success ⊢
    split at success
    · next done => exact ⟨[], finished reader done, by rw [if_pos done]; rfl⟩
    · next further =>
      rw [if_neg further]
      cases read : Reading.topLevel reader with
      | error failure stopped => simp [read] at success
      | ok result next =>
        obtain ⟨global, derived, elaborated, -⟩ :=
          Reading.sound_topLevel reader.outlook (ended_upToEnd _ _) _ _ _ rfl read
        change global.elaborate reader.checker.unplaced = (result, next.checker.unplaced) at elaborated
        simp only [read] at success ⊢
        cases result with
        | none =>
          obtain ⟨globals, ⟨last, done, run⟩, all⟩ := ih next output success
          refine ⟨global :: globals, ⟨last, done, .cons derived run⟩, ?_⟩
          simp only [Global.elaborateAll, elaborated]
          exact all
        | some function =>
          -- The consumer may have placed the symbols of the function.
          let consumed := consume function next.checker.symbols output
          obtain ⟨globals, ⟨last, done, run⟩, all⟩ := ih
            { next with checker := { next.checker with symbols := consumed.1 } } consumed.2 success
          refine ⟨global :: globals, ⟨last, done, .cons derived run⟩, ?_⟩
          simp only [Global.elaborateAll, elaborated]
          exact all

/-- A unit that is read to its end has a derivation, which has been checked in order. -/
theorem readDeclarations_sound {σ : Type} (consume : Consumer σ) (clock : List Token) (reader : Reader)
    (output : σ) (ended : Ended reader.remaining)
    (success : (readDeclarations consume clock reader output).failure? = none) :
    ∃ globals, DerivesUnit reader.remaining globals ∧
      Global.elaborateAll consume globals reader.checker.unplaced output =
        ((readDeclarations consume clock reader output).reader.checker.unplaced,
          (readDeclarations consume clock reader output).output) := by
  have read := readDeclarations_derives consume clock reader output success
  rwa [Reader.outlook_eq ended] at read

/-- A sentence is read to its end, two levels of nesting for each token being enough. -/
theorem readDeclarations_complete {σ : Type} (consume : Consumer σ) {tokens : List Token}
    {globals : List Global} {last : Token} (done : last.kind = .done)
    (run : Run Global.Derives tokens globals [last]) :
    ∀ (clock : List Token) (reader : Reader) (output : σ), reader.remaining = tokens →
      tokens.length ≤ clock.length → 2 * tokens.length + 1 ≤ reader.limit →
        (readDeclarations consume clock reader output).failure? = none := by
  generalize closing : [last] = rest at run
  induction run with
  | nil =>
    intro clock reader output reached enough limited
    subst closing
    obtain ⟨rfl, _⟩ := List.cons.inj reached
    cases clock <;>
    · simp only [readDeclarations]
      rw [if_pos done]
  | @cons start middle _ global others head tail ih =>
    intro clock reader output reached enough limited
    subst closing
    have less := head.shorter
    have remains := Run.shorter (fun _ _ _ => Global.Derives.shorter) tail
    simp only [List.length_cons, List.length_nil] at remains
    obtain _ | ⟨token, clock⟩ := clock
    · simp only [List.length_nil] at enough
      omega
    simp only [List.length_cons] at enough
    have stage : reader.stage = ⟨start, reader.checker.unplaced⟩ := by
      rw [← reached]
      rfl
    -- What stands at the top of a unit starts with a specifier.
    have further : reader.current.kind ≠ .done := by
      intro ended
      have opens := head.opens
      rw [← reached] at opens
      change reader.current.kind.isSpecifier = true at opens
      rw [ended] at opens
      cases opens
    rcases elaborated : global.elaborate reader.checker.unplaced with ⟨result, known⟩
    obtain ⟨next, read, after⟩ := Reading.complete_topLevel head (by omega) limited elaborated reader
      rfl stage
    have left : next.remaining = middle := congrArg Stage.tokens after
    obtain ⟨_, kept⟩ := Reading.topLevel_height read
    rw [readDeclarations, if_neg further]
    simp only [read]
    cases result with
    | none => exact ih rfl clock next output left (by omega) (by omega)
    | some function => exact ih rfl clock _ _ left (by omega) (by change _ ≤ next.limit; omega)

/-- The reader of a unit starts at its first token. -/
theorem stage_before {tokens : List Token} (ended : Ended tokens) (limit : Nat) :
    (Reader.before tokens limit {}).stage = ⟨tokens, {}⟩ := by
  cases tokens with
  | nil => exact ended.elim
  | cons token rest => rfl

/-- A sentence is read to its end wherever nesting may be deep enough. -/
theorem readUnit_complete {σ : Type} (consume : Consumer σ) {tokens : List Token}
    (ended : Ended tokens) {globals : List Global} (derived : DerivesUnit tokens globals) (output : σ) :
    ∃ enough, ∀ limit, enough ≤ limit → (readUnit consume tokens limit output).failure? = none := by
  obtain ⟨last, done, run⟩ := derived
  refine ⟨2 * tokens.length + 1, fun limit enough => ?_⟩
  have remaining : (Reader.before tokens limit {}).remaining = tokens :=
    congrArg Stage.tokens (stage_before ended limit)
  exact readDeclarations_complete consume done run _ _ _ remaining (by rw [remaining]) enough

/-- Wherever a unit is read to its end, it is what checking makes of its derivation. -/
theorem readUnit_checks {σ : Type} (consume : Consumer σ) {tokens : List Token} (ended : Ended tokens)
    {globals : List Global} (derived : DerivesUnit tokens globals) {output : σ} {limit : Nat}
    (done : (readUnit consume tokens limit output).failure? = none) :
    Global.elaborateAll consume globals {} output =
      ((readUnit consume tokens limit output).reader.checker.unplaced,
        (readUnit consume tokens limit output).output) := by
  have start := stage_before ended limit
  have remaining : (Reader.before tokens limit {}).remaining = tokens := congrArg Stage.tokens start
  have fresh : (Reader.before tokens limit {}).checker.unplaced = {} :=
    congrArg Stage.checker start
  obtain ⟨found, listed, checked⟩ := readDeclarations_sound consume
    (Reader.before tokens limit {}).remaining (Reader.before tokens limit {}) output
    (by rwa [remaining]) done
  rw [remaining] at listed
  -- No other derivation has been checked.
  rw [fresh, listed.unique derived] at checked
  exact checked

/-- Exactly the sentences of the grammar are read where nesting may be deep enough, and wherever a
unit is read, what is handed on and reported is what checking makes of the one derivation of its
tokens, step by step in the order of the source. -/
theorem readUnit_recognises {σ : Type} (consume : Consumer σ) {tokens : List Token}
    (ended : Ended tokens) (output : σ) :
    ((∃ enough, ∀ limit, enough ≤ limit → (readUnit consume tokens limit output).failure? = none) ↔
      ∃ globals, DerivesUnit tokens globals) ∧
    ∀ limit, (readUnit consume tokens limit output).failure? = none →
      ∃ globals, DerivesUnit tokens globals ∧
        (∀ others, DerivesUnit tokens others → others = globals) ∧
        Global.elaborateAll consume globals {} output =
          ((readUnit consume tokens limit output).reader.checker.unplaced,
            (readUnit consume tokens limit output).output) := by
  have start (limit : Nat) := stage_before ended limit
  have remaining (limit : Nat) : (Reader.before tokens limit {}).remaining = tokens :=
    congrArg Stage.tokens (start limit)
  have sound (limit : Nat) (success : (readUnit consume tokens limit output).failure? = none) :
      ∃ globals, DerivesUnit tokens globals ∧ Global.elaborateAll consume globals {} output =
        ((readUnit consume tokens limit output).reader.checker.unplaced,
          (readUnit consume tokens limit output).output) := by
    obtain ⟨globals, derived, checked⟩ := readDeclarations_sound consume
      (Reader.before tokens limit {}).remaining (Reader.before tokens limit {}) output
      (by rwa [remaining]) success
    rw [show (Reader.before tokens limit {}).checker.unplaced = {} from
      congrArg Stage.checker (start limit)] at checked
    exact ⟨globals, remaining limit ▸ derived, checked⟩
  refine ⟨⟨?_, ?_⟩, ?_⟩
  · rintro ⟨enough, success⟩
    obtain ⟨globals, derived, _⟩ := sound enough (success enough (Nat.le_refl _))
    exact ⟨globals, derived⟩
  · rintro ⟨globals, last, done, run⟩
    refine ⟨2 * tokens.length + 1, fun limit enough => ?_⟩
    exact readDeclarations_complete consume done run _ _ _ (remaining limit)
      (by rw [remaining]) enough
  · intro limit success
    obtain ⟨globals, derived, checked⟩ := sound limit success
    exact ⟨globals, derived, fun others other => other.unique derived, checked⟩

/-- The function is read at a few levels, so its tokens have one derivation. -/
theorem readUnit_recognises_echo : Ended echoTokens ∧
    (readUnit ignoring echoTokens 3 ()).failure? = none ∧
      ∃ globals, DerivesUnit echoTokens globals ∧
        ∀ others, DerivesUnit echoTokens others → others = globals := by
  have ended : Ended echoTokens := by simp [echoTokens, Ended]
  have read : (readUnit ignoring echoTokens 3 ()).failure? = none := by cbv
  obtain ⟨globals, derived, unique, _⟩ := (readUnit_recognises ignoring ended ()).2 3 read
  exact ⟨ended, read, globals, derived, unique⟩

end SmallC
