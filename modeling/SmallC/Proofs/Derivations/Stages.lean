import SmallC.Proofs.Derivations.Units
import SmallC.Proofs.Typing.Reading

/-! Stages of reading: the tokens that are left and what the checker knows apart from places. What
an action does from a stage is said twice: where its success leads, and that it does succeed. -/

namespace SmallC

/-- The checker without the places that it and its reports name. -/
def Checker.unplaced (checker : Checker) : Checker :=
  { checker with
    position := .start
    reports := checker.reports.map fun report => { report with position := .start } }

/-- The tokens end the source where they end, and not before. -/
def Ended : List Token → Prop
  | [] => False
  | token :: rest => if token.kind = .done then rest = [] else Ended rest

theorem Ended.tail {token : Token} {rest : List Token} (ended : Ended (token :: rest))
    (further : token.kind ≠ .done) : Ended rest := by
  rwa [Ended, if_neg further] at ended

theorem Ended.last {token : Token} {rest : List Token} (ended : Ended (token :: rest))
    (done : token.kind = .done) : rest = [] := by
  rwa [Ended, if_pos done] at ended

theorem Ended.pos {tokens : List Token} (ended : Ended tokens) : 0 < tokens.length := by
  cases tokens with
  | nil => exact ended.elim
  | cons token rest => simp

/-- How far a unit has been read, apart from places. -/
structure Stage where
  /-- The tokens that are left, the one in hand first. -/
  tokens : List Token
  /-- What has been declared and reported. -/
  checker : Checker

/-- The stage that a reader has reached. -/
def Reader.stage (reader : Reader) : Stage :=
  ⟨reader.remaining, reader.checker.unplaced⟩

/-- Tokens up to the first one that ends the source, which stands behind the last one when there is
none. -/
def upToEnd : Token → List Token → List Token
  | token, [] => if token.kind = .done then [token] else [token, .atEnd token.position]
  | token, next :: rest => if token.kind = .done then [token] else token :: upToEnd next rest

/-- The stage that a reader has reached, as far as it will ever see. -/
def Reader.outlook (reader : Reader) : Stage :=
  ⟨upToEnd reader.current reader.rest, reader.checker.unplaced⟩

theorem upToEnd_done {token : Token} (done : token.kind = .done) (rest : List Token) :
    upToEnd token rest = [token] := by
  cases rest <;> rw [upToEnd, if_pos done]

/-- Before the end, what a reader sees behind a token is what it sees when it has taken it. -/
theorem upToEnd_further {token : Token} (further : token.kind ≠ .done) (rest : List Token) :
    upToEnd token rest =
      token :: upToEnd (rest.head?.getD (.atEnd token.position)) rest.tail := by
  cases rest with
  | nil =>
    rw [upToEnd, if_neg further]
    rfl
  | cons next rest =>
    rw [upToEnd, if_neg further]
    rfl

/-- The source ends in sight. -/
theorem ended_upToEnd (token : Token) (rest : List Token) : Ended (upToEnd token rest) := by
  -- Either the end is among the tokens, or one is put behind them.
  induction rest generalizing token with
  | nil =>
    unfold upToEnd
    split
    · next done => simp [Ended, done]
    · next further => simp [Ended, further, Token.atEnd]
  | cons next rest ih =>
    unfold upToEnd
    split
    · next done => simp [Ended, done]
    · next further =>
      rw [Ended, if_neg further]
      exact ih next

/-- Tokens that end with the source are in sight altogether. -/
theorem upToEnd_of_ended {token : Token} {rest : List Token} (ended : Ended (token :: rest)) :
    upToEnd token rest = token :: rest := by
  -- Only the last token is the end of the source.
  induction rest generalizing token with
  | nil =>
    have done : token.kind = .done := by
      by_contra further
      exact ended.tail further
    exact upToEnd_done done []
  | cons next rest ih =>
    have further : token.kind ≠ .done := fun done => List.cons_ne_nil _ _ (ended.last done)
    rw [upToEnd, if_neg further, ih (ended.tail further)]

/-- Where the tokens end with the source, a reader sees them all. -/
theorem Reader.outlook_eq {reader : Reader} (ended : Ended reader.remaining) :
    reader.outlook = reader.stage := by
  rw [outlook, stage, upToEnd_of_ended ended]
  rfl

/-! Checking step by step. -/

namespace Checking

variable {α β : Type} {checker middle final : Checker}

theorem bind_eq {step : Checking α} {next : α → Checking β} {value : β} :
    (step >>= next) checker = (value, final) ↔
      ∃ found middle, step checker = (found, middle) ∧ next found middle = (value, final) := by
  constructor
  · intro done
    exact ⟨_, _, rfl, done⟩
  · rintro ⟨found, middle, first, second⟩
    change next (step checker).1 (step checker).2 = _
    rw [first]
    exact second

theorem pure_eq {value found : α} :
    (pure value : Checking α) checker = (found, final) ↔ value = found ∧ checker = final :=
  Prod.mk.injEq _ _ _ _ ▸ Iff.rfl

theorem then_eq {step : Checking α} {next : α → Checking β} {found : α} {value : β}
    (first : step checker = (found, middle)) (second : next found middle = (value, final)) :
    (step >>= next) checker = (value, final) :=
  bind_eq.mpr ⟨found, middle, first, second⟩

theorem discard_eq {step : Checking α} {found : α} (done : step checker = (found, final)) :
    (discard step) checker = (⟨⟩, final) := by
  change (PUnit.unit, (step checker).2) = _
  rw [done]

theorem of_discard {step : Checking α} {value : PUnit}
    (done : (discard step) checker = (value, final)) : ∃ found, step checker = (found, final) := by
  change (PUnit.unit, (step checker).2) = (value, final) at done
  obtain ⟨rfl, rfl⟩ := Prod.mk.inj done
  exact ⟨(step checker).1, rfl⟩

end Checking

/-- A step of checking that takes no notice of places. -/
def Blind {α : Type} (step : Checker → α × Checker) : Prop :=
  ∀ checker : Checker, step checker.unplaced = ((step checker).1, (step checker).2.unplaced)

namespace Checker

theorem unplaced_report (checker : Checker) (problem : Problem) :
    (checker.report problem).unplaced = checker.unplaced.report problem := by
  simp [report, unplaced]

theorem blind_record {α : Type} (verdict : Verdict α) : Blind (record verdict) := by
  intro checker
  cases found : verdict.problem? <;> simp [record, found, unplaced_report]

theorem blind_openScope : Blind openScope := fun _ => rfl

theorem blind_closeScope : Blind closeScope := fun _ => rfl

theorem unplaced_closeParameters (checker : Checker) :
    checker.closeParameters.unplaced = checker.unplaced.closeParameters := by
  simp only [closeParameters, blind_closeScope checker]
  split <;> rfl

theorem blind_declareVariable (name : String) (type : Ty) : Blind (declareVariable name type) := by
  intro checker
  have here : checker.unplaced.current = checker.current := rfl
  simp only [declareVariable, here]
  -- A name that is declared before makes a report, with its place only.
  cases found : checker.symbols.find? checker.current name with
  | none =>
    simp only [unplaced, found]
    rfl
  | some existing =>
    simp only [show checker.unplaced.symbols = checker.symbols from rfl, found]
    split
    · rw [unplaced_report]
    · split
      · rw [unplaced_report]
      · rfl

theorem blind_declareFunction (name : String) (type : Ty) : Blind (declareFunction name type) := by
  intro checker
  simp only [declareFunction, show checker.unplaced.symbols = checker.symbols from rfl]
  -- Whether the name is known does not depend on positions, and a report keeps its own.
  cases found : checker.symbols.find? unitScope name with
  | none => rfl
  | some existing =>
    dsimp only
    split
    · rw [unplaced_report]
    · rfl

theorem blind_defineFunction (name : String) (type : Ty) : Blind (defineFunction name type) := by
  intro checker
  have declared (checker : Checker) : declareDefined name type checker.unplaced =
      ((declareDefined name type checker).1, (declareDefined name type checker).2.unplaced) :=
    blind_declareFunction name type { checker with defined := name :: checker.defined }
  simp only [defineFunction, show checker.unplaced.defined = checker.defined from rfl]
  -- A second body is reported, and then the name is declared as the first time.
  split
  · rw [← unplaced_report]
    simp only [show (checker.report (.redefinition name)).unplaced.symbols =
      (checker.report (.redefinition name)).symbols from rfl]
    split
    · rfl
    · exact declared _
  · exact declared _

theorem blind_resolve (name : String) : Blind (resolve name) := by
  intro checker
  simp only [resolve, show checker.unplaced.symbols = checker.symbols from rfl]
  split
  · rfl
  · rw [← unplaced_report]
    rfl

theorem blind_call (callee : SymbolId) (arguments : List Expression) :
    Blind (call callee arguments) :=
  fun checker => blind_record (checkCall callee (checker.symbols.typeOf callee) arguments) checker

end Checker

namespace Reading

variable {α β : Type}

/-- Where an action succeeds from a stage, it does so with a good value at a good stage. -/
def Leads (action : Reading α) (start : Stage) (good : α → Stage → Prop) : Prop :=
  ∀ reader value next, reader.outlook = start → action reader = .ok value next →
    good value next.outlook

/-- From a stage an action succeeds, with the value and at the stage that are given. -/
def Reaches (action : Reading α) (start : Stage) (value : α) (final : Stage) : Prop :=
  ∀ reader, reader.stage = start → ∃ next, action reader = .ok value next ∧ next.stage = final

theorem stage_step {reader : Reader} {token : Token} {rest : List Token} {checker : Checker}
    (at_token : reader.stage = ⟨token :: rest, checker⟩) (further : 0 < rest.length) :
    reader.current = token ∧ reader.step.stage = ⟨rest, checker⟩ := by
  obtain ⟨current, others, known, limit⟩ := reader
  cases at_token
  cases others with
  | nil => simp at further
  | cons next others => exact ⟨rfl, rfl⟩

theorem outlook_step {reader : Reader} {token : Token} {rest : List Token} {checker : Checker}
    (at_token : reader.outlook = ⟨token :: rest, checker⟩) (further : 0 < rest.length) :
    reader.current = token ∧ reader.step.outlook = ⟨rest, checker⟩ := by
  obtain ⟨tokens, rfl⟩ := Stage.mk.inj at_token
  -- At the end of the source nothing is behind the token in hand.
  by_cases done : reader.current.kind = .done
  · rw [upToEnd_done done] at tokens
    cases tokens
    cases further
  · rw [upToEnd_further done] at tokens
    obtain ⟨rfl, rfl⟩ := List.cons.inj tokens
    exact ⟨rfl, rfl⟩

theorem kind_of_outlook {reader : Reader} {tokens : List Token} {checker : Checker}
    (reached : reader.outlook = ⟨tokens, checker⟩) : reader.current.kind = ahead tokens := by
  obtain ⟨rfl, -⟩ := Stage.mk.inj reached
  by_cases done : reader.current.kind = .done
  · rw [upToEnd_done done, ahead_cons]
  · rw [upToEnd_further done, ahead_cons]

theorem kind_of_stage {reader : Reader} {tokens : List Token} {checker : Checker}
    (reached : reader.stage = ⟨tokens, checker⟩) : reader.current.kind = ahead tokens := by
  cases reached
  rfl

section Leads

variable {start : Stage} {good : α → Stage → Prop} {well : β → Stage → Prop}
  {tokens : List Token} {checker : Checker}

theorem Leads.pure {value : α} (holds : good value start) : Leads (Pure.pure value) start good := by
  rintro reader result next rfl done
  obtain ⟨rfl, rfl⟩ := pure_ok done
  exact holds

/-- What follows an action starts wherever the action leads. -/
theorem Leads.bind {action : Reading α} {next : α → Reading β}
    (leads : Leads action start fun value middle => Leads (next value) middle well) :
    Leads (action >>= next) start well := by
  intro reader value final reached done
  obtain ⟨found, state, begun, ended⟩ := bind_ok done
  exact leads _ _ _ reached begun _ _ _ rfl ended

theorem Leads.weaken {action : Reading α} {weaker : α → Stage → Prop}
    (leads : Leads action start good) (implies : ∀ value final, good value final → weaker value final) :
    Leads action start weaker :=
  fun reader value next reached done => implies _ _ (leads reader value next reached done)

theorem Leads.discard {action : Reading α} {good : PUnit → Stage → Prop}
    (leads : Leads action start fun _ final => good ⟨⟩ final) :
    Leads (Functor.discard action) start good := by
  intro reader value final reached done
  obtain ⟨found, done⟩ := discard_ok done
  exact leads _ _ _ reached done

theorem Leads.get {good : Reader → Stage → Prop}
    (holds : ∀ reader, reader.outlook = start → good reader start) :
    Leads MonadState.get start good := by
  intro reader value final reached done
  cases done
  exact reached ▸ holds reader reached

theorem Leads.throw (failure : Failure) : Leads (throw failure : Reading α) start good := by
  intro reader value next reached done
  cases done

theorem Leads.unexpected : Leads (unexpected : Reading α) start good :=
  .bind (.get fun _ _ => .throw _)

theorem Leads.tooDeep : Leads (tooDeep : Reading α) start good :=
  .bind (.get fun _ _ => .throw _)

theorem Leads.kind {good : TokenKind → Stage → Prop} (holds : good (ahead tokens) ⟨tokens, checker⟩) :
    Leads Reading.kind ⟨tokens, checker⟩ good := by
  refine .bind (.get fun reader reached => .pure ?_)
  rwa [kind_of_outlook reached]

theorem Leads.advance {token : Token} {rest : List Token} {good : Token → Stage → Prop}
    (further : 0 < rest.length) (holds : good token ⟨rest, checker⟩) :
    Leads Reading.advance ⟨token :: rest, checker⟩ good := by
  intro reader value final reached done
  obtain ⟨rfl, stepped⟩ := outlook_step reached further
  cases done
  rwa [stepped]

theorem Leads.act {step : Checker → α × Checker} (blind : Blind step)
    (holds : ∀ value final, step checker = (value, final) → good value ⟨tokens, final⟩) :
    Leads (Reading.act step) ⟨tokens, checker⟩ good := by
  intro reader value final reached done
  cases reached
  cases done
  exact holds _ _ (blind reader.checker)

/-- Only a token of the given kind is taken. -/
theorem Leads.expect {wanted : TokenKind} {good : Token → Stage → Prop} (ended : Ended tokens)
    (further : wanted ≠ .done)
    (holds : ∀ token rest, tokens = token :: rest → token.kind = wanted → Ended rest →
      good token ⟨rest, checker⟩) : Leads (Reading.expect wanted) ⟨tokens, checker⟩ good := by
  obtain _ | ⟨token, rest⟩ := tokens
  · exact ended.elim
  refine .bind (.kind ?_)
  split
  · next same =>
    -- The token is not the last one, so there is one behind it.
    have longer : Ended rest := ended.tail fun last => further (same.symm.trans last)
    exact .advance longer.pos (holds token rest rfl same longer)
  · exact .unexpected

end Leads

section Reaches

variable {start middle final : Stage} {tokens rest : List Token} {checker : Checker}

theorem Reaches.pure (value : α) : Reaches (Pure.pure value) start value start :=
  fun reader reached => ⟨reader, rfl, reached⟩

theorem Reaches.bind {action : Reading α} {next : α → Reading β} {found : α} {value : β}
    (first : Reaches action start found middle) (second : Reaches (next found) middle value final) :
    Reaches (action >>= next) start value final := by
  intro reader reached
  obtain ⟨state, begun, between⟩ := first reader reached
  obtain ⟨last, ended, done⟩ := second state between
  refine ⟨last, ?_, done⟩
  simp [Bind.bind, EStateM.bind, begun, ended]

theorem Reaches.discard {action : Reading α} {found : α} (reaches : Reaches action start found final) :
    Reaches (Functor.discard action) start ⟨⟩ final := by
  intro reader reached
  obtain ⟨state, done, between⟩ := reaches reader reached
  refine ⟨state, ?_, between⟩
  simp [Functor.discard, Functor.mapConst, EStateM.map, done]

theorem Reaches.get {next : Reader → Reading β} {value : β}
    (second : ∀ reader, reader.stage = start → Reaches (next reader) start value final) :
    Reaches (MonadState.get >>= next) start value final :=
  fun reader reached => second reader reached reader reached

theorem Reaches.kind : Reaches Reading.kind ⟨tokens, checker⟩ (ahead tokens) ⟨tokens, checker⟩ := by
  refine .get fun reader reached => ?_
  rw [kind_of_stage reached]
  exact .pure _

theorem Reaches.advance {token : Token} (further : 0 < rest.length) :
    Reaches Reading.advance ⟨token :: rest, checker⟩ token ⟨rest, checker⟩ := by
  intro reader reached
  obtain ⟨rfl, stepped⟩ := stage_step reached further
  exact ⟨reader.step, rfl, stepped⟩

theorem Reaches.act {step : Checker → α × Checker} {found : α} {known : Checker}
    (blind : Blind step) (acted : step checker = (found, known)) :
    Reaches (Reading.act step) ⟨tokens, checker⟩ found ⟨tokens, known⟩ := by
  intro reader reached
  cases reached
  obtain ⟨rfl, rfl⟩ := Prod.mk.inj ((blind reader.checker).symm.trans acted)
  exact ⟨_, rfl, rfl⟩

theorem Reaches.expect {token : Token} {wanted : TokenKind} (same : token.kind = wanted)
    (further : 0 < rest.length) :
    Reaches (Reading.expect wanted) ⟨token :: rest, checker⟩ token ⟨rest, checker⟩ := by
  refine .bind .kind ?_
  rw [ahead_cons, if_pos same]
  exact .advance further

end Reaches

end Reading

end SmallC
