import SmallC.Proofs.Derivations.CompleteUnits

/-! Stops: before which tokens an action of reading must fail, and with which failure. -/

namespace SmallC

namespace Reading

variable {α β : Type} {start middle rest tokens : List Token} {failure : Failure}

/-- Before the tokens an action succeeds, with a good value and with the rest of them left. -/
def Arrives (action : Reading α) (start : List Token) (good : α → Prop) (rest : List Token) : Prop :=
  ∀ reader : Reader, reader.remaining = start →
    ∃ value next, action reader = .ok value next ∧ good value ∧ next.remaining = rest

/-- Before the tokens an action stops with the failure. -/
def Fails (action : Reading α) (start : List Token) (failure : Failure) : Prop :=
  ∀ reader : Reader, reader.remaining = start → ∃ next, action reader = .error failure next

section Arrives

variable {action : Reading α} {good : α → Prop}

/-- What is reached whatever has been checked is arrived at. -/
theorem Arrives.of_reaches {value : α}
    (reaches : ∀ checker, ∃ final, Reaches action ⟨start, checker⟩ value ⟨rest, final⟩) :
    Arrives action start (· = value) rest := by
  intro reader at_start
  obtain ⟨final, reached⟩ := reaches reader.checker.unplaced
  obtain ⟨next, done, last⟩ := reached reader (at_start ▸ rfl)
  exact ⟨value, next, done, rfl, congrArg Stage.tokens last⟩

/-- What is complete is arrived at, with a value that checking gives. -/
theorem Arrives.of_complete {grammar : List Token → β → List Token → Prop}
    {meaning : β → Checking α} {size : Nat} (complete : Complete action grammar meaning size)
    {thing : β} (derived : grammar start thing rest) (short : start.length ≤ size)
    (longer : 0 < rest.length) : Arrives action start (fun _ => True) rest := by
  intro reader at_start
  have checked : meaning thing reader.checker.unplaced = (_, _) := rfl
  obtain ⟨next, done, last⟩ := complete derived short longer checked reader (at_start ▸ rfl)
  exact ⟨_, next, done, trivial, congrArg Stage.tokens last⟩

theorem Arrives.kind : Arrives Reading.kind tokens (· = ahead tokens) tokens :=
  .of_reaches fun checker => ⟨checker, .kind⟩

theorem Arrives.act (step : Checker → α × Checker) :
    Arrives (Reading.act step) tokens (fun _ => True) tokens :=
  fun reader at_start => ⟨_, { reader with checker := (step reader.checker).2 }, rfl, trivial, at_start⟩

theorem Arrives.discard (arrives : Arrives action start good rest) :
    Arrives (Functor.discard action) start (fun _ => True) rest := by
  intro reader at_start
  obtain ⟨value, next, done, -, left⟩ := arrives reader at_start
  refine ⟨⟨⟩, next, ?_, trivial, left⟩
  simp [Functor.discard, Functor.mapConst, EStateM.map, done]

theorem Arrives.advance {token : Token} (further : 0 < rest.length) :
    Arrives Reading.advance (token :: rest) (· = token) rest :=
  .of_reaches fun checker => ⟨checker, .advance further⟩

theorem Arrives.expect {token : Token} {wanted : TokenKind} (same : token.kind = wanted)
    (further : 0 < rest.length) :
    Arrives (Reading.expect wanted) (token :: rest) (· = token) rest :=
  .of_reaches fun checker => ⟨checker, .expect same further⟩

theorem Arrives.stars {count : Nat} (counted : Stars start count rest) (stops : ahead rest ≠ .star)
    (longer : 0 < rest.length) : Arrives Reading.stars start (· = count) rest :=
  .of_reaches fun checker => ⟨checker, reaches_stars counted stops longer⟩

theorem Arrives.name {token : Token} (spelled : token.kind = .identifier) (longer : 0 < rest.length) :
    Arrives Reading.name (token :: rest) (· = token.text) rest :=
  .of_reaches fun checker => ⟨checker, reaches_name spelled longer⟩

theorem Arrives.specifier {token : Token} {specifier : Specifier}
    (specified : token.kind = .specifier specifier) (longer : 0 < rest.length) :
    Arrives Reading.specifier (token :: rest) (· = specifier) rest :=
  .of_reaches fun checker => ⟨checker, reaches_specifier specified longer⟩

end Arrives

section Fails

variable {action : Reading α} {good : α → Prop}

/-- An action that stops is not followed by another one. -/
theorem Fails.bind (fails : Fails action start failure) (next : α → Reading β) :
    Fails (action >>= next) start failure := by
  intro reader at_start
  obtain ⟨stopped, done⟩ := fails reader at_start
  exact ⟨stopped, by simp [Bind.bind, EStateM.bind, done]⟩

/-- What stops behind an action that succeeds stops where that one starts. -/
theorem Arrives.fails (arrives : Arrives action start good middle) {next : α → Reading β}
    (fails : ∀ value, good value → Fails (next value) middle failure) :
    Fails (action >>= next) start failure := by
  intro reader at_start
  obtain ⟨value, state, done, holds, left⟩ := arrives reader at_start
  obtain ⟨stopped, failed⟩ := fails value holds state left
  exact ⟨stopped, by simp [Bind.bind, EStateM.bind, done, failed]⟩

theorem Fails.get {next : Reader → Reading β}
    (fails : ∀ reader : Reader, reader.remaining = start → Fails (next reader) start failure) :
    Fails (MonadState.get >>= next) start failure :=
  fun reader at_start => fails reader at_start reader at_start

theorem Fails.throw (failure : Failure) : Fails (throw failure : Reading α) start failure :=
  fun reader _ => ⟨reader, rfl⟩

theorem Fails.discard (fails : Fails action start failure) :
    Fails (Functor.discard action) start failure := by
  intro reader at_start
  obtain ⟨stopped, done⟩ := fails reader at_start
  exact ⟨stopped, by simp [Functor.discard, Functor.mapConst, EStateM.map, done]⟩

/-- The body of a loop stops as it does elsewhere. -/
theorem Fails.insideLoop (fails : Fails action start failure) :
    Fails (Reading.insideLoop action) start failure := by
  intro reader at_start
  obtain ⟨stopped, done⟩ := fails { reader with checker := reader.checker.enterLoop } at_start
  exact ⟨{ stopped with checker := stopped.checker.leaveLoop }, by simp [Reading.insideLoop, done]⟩

/-- Before the tokens an action stops with the failure, where nesting may be so deep at least. -/
def FailsAbove (least : Nat) (action : Reading α) (start : List Token) (failure : Failure) : Prop :=
  ∀ reader : Reader, least ≤ reader.limit → reader.remaining = start →
    ∃ next, action reader = .error failure next

theorem Fails.above (fails : Fails action start failure) (least : Nat) :
    FailsAbove least action start failure :=
  fun reader _ => fails reader

/-- The first of two actions keeps the limit. -/
theorem Arrives.failsAbove {least : Nat} {fine : α → Prop} (gives : Gives action fine)
    (arrives : Arrives action start good middle) {next : α → Reading β}
    (fails : ∀ value, good value → FailsAbove least (next value) middle failure) :
    FailsAbove least (action >>= next) start failure := by
  intro reader enough at_start
  obtain ⟨value, state, done, holds, left⟩ := arrives reader at_start
  obtain ⟨stopped, failed⟩ := fails value holds state ((gives _ _ _ done).2 ▸ enough) left
  exact ⟨stopped, by simp [Bind.bind, EStateM.bind, done, failed]⟩

theorem FailsAbove.get {least : Nat} {next : Reader → Reading β}
    (fails : ∀ reader : Reader, least ≤ reader.limit → Fails (next reader) start failure) :
    FailsAbove least (MonadState.get >>= next) start failure :=
  fun reader enough at_start => fails reader enough reader at_start

theorem FailsAbove.bind {least : Nat} (fails : FailsAbove least action start failure)
    (next : α → Reading β) : FailsAbove least (action >>= next) start failure := by
  intro reader enough at_start
  obtain ⟨stopped, done⟩ := fails reader enough at_start
  exact ⟨stopped, by simp [Bind.bind, EStateM.bind, done]⟩

variable {grammar : List Token → β → List Token → Prop} {meaning : β → Checking α} {size : Nat}

/-- Where items are read one after the other, the first one that stops is the last. -/
theorem Fails.many {test : TokenKind → Bool} (complete : Complete action grammar meaning size)
    (found : ∀ start thing rest, grammar start thing rest → test (ahead start) = true)
    (shorter : ∀ start thing rest, grammar start thing rest → rest.length < start.length)
    {things : List β} (run : Run grammar start things middle) (short : start.length ≤ size)
    (longer : 0 < middle.length) (goes : test (ahead middle) = true)
    (fails : Fails action middle failure) : Fails (Reading.many test action) start failure := by
  -- A clock that has as many tokens as are left does not run out before.
  have clocked : ∀ clock : List Token, start.length ≤ clock.length →
      Fails (whileAt test action clock) start failure := by
    induction run with
    | nil =>
      intro clock enough
      obtain _ | ⟨token, clock⟩ := clock
      · simp only [List.length_nil] at enough
        omega
      · refine Arrives.kind.fails fun kind same => ?_
        rw [same, if_pos goes]
        exact fails.bind _
    | @cons start between middle first others head tail ih =>
      intro clock enough
      have less := shorter _ _ _ head
      have inside := Run.shorter shorter tail
      obtain _ | ⟨token, clock⟩ := clock
      · simp only [List.length_nil] at enough
        omega
      · simp only [List.length_cons] at enough
        refine Arrives.kind.fails fun kind same => ?_
        rw [same, if_pos (found _ _ _ head)]
        refine (Arrives.of_complete complete head short (by omega)).fails fun _ _ => ?_
        exact (ih (by omega) longer goes fails clock (by omega)).bind _
  exact .get fun reader at_start => at_start.symm ▸ clocked start (Nat.le_refl _)

/-- Items with commas between them stop where one of them does, behind the others. -/
theorem Fails.further (complete : Complete action grammar meaning size)
    (shorter : ∀ start thing rest, grammar start thing rest → rest.length < start.length)
    {things : List β} {comma : Token}
    (run : Run (AfterComma grammar) start things (comma :: middle)) (short : start.length ≤ size + 1)
    (separated : comma.kind = .comma) (longer : 0 < middle.length)
    (fails : Fails action middle failure) :
    Fails (Reading.many (· = .comma) (do Functor.discard advance; action)) start failure := by
  refine Fails.many (complete_afterComma complete shorter) ?_ (fun _ _ _ => AfterComma.shorter shorter)
    run short (by simp) (by simp [separated]) ?_
  · rintro _ _ _ ⟨comma, middle, rfl, separated, _⟩
    exact decide_eq_true separated
  · exact (Arrives.advance longer).discard.fails fun _ _ => fails

end Fails

end Reading

end SmallC
