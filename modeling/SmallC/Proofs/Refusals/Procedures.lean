import SmallC.Proofs.Ending.Procedures
import SmallC.Proofs.Refusals.Answers
import SmallC.Proofs.Refusals.Grammar

/-! The answers of every part of the grammar up to expressions, procedure by procedure. -/

namespace SmallC

namespace Metered

open Answers (kind)

variable {ι : Type} {known : List Token → Prop} {eager : Prop} {turns : Nat}

/-! Declarations. -/

theorem answers_name (plain : eager → ∀ tokens, known tokens → ahead tokens ≠ .leftParen) :
    Answers known eager (.lone .identifier) name (fun _ : ι => Reading.name) :=
  (Answers.expect (by decide) fun some => .inr (plain some)).last

theorem answers_specifier :
    Answers known False .specifier specifier (fun _ : ι => Reading.specifier) := by
  refine kind fun found => ?_
  -- Only a specifier is taken here, and any other token is refused as it is.
  cases found with
  | specifier found =>
    have taken : Answers (fun tokens => known tokens ∧ ahead tokens = .specifier found) False
        (.lone (.specifier found)) (once Reading.advance) fun _ : ι => Reading.advance :=
      .held (by simp)
    refine taken.discard.last.within ?_
    rintro start rest ⟨word, rfl, spelled⟩
    exact ⟨word, rfl, found, spelled⟩
  | _ => exact .unexpected False.elim

theorem answers_stars : Answers known False (.of Stars) (stars turns) (fun _ : ι => Reading.stars) := by
  -- The loop goes on only where it has seen a star.
  have each : ∀ found, decide (found = TokenKind.star) = true →
      Answers (fun tokens => ahead tokens = found) False (.of Starred) (once Reading.advance)
        (fun _ : ι => Reading.advance) := by
    intro found same
    obtain rfl := of_decide_eq_true same
    have taken : Answers (fun tokens => ahead tokens = .star) False (.lone .star)
        (once Reading.advance) fun _ : ι => Reading.advance := .advance (by decide) fun _ told => told
    exact taken.within Part.star_within
  have run := Answers.many each turns
  exact (run.knowing fun _ _ => trivial).last.within Part.stars_within

/-! Numbers are weighed once they are taken, so that a failure may name the token before the one in
hand. -/

section Numbers

variable {α β : Type} {action : Metered α} {next : α → Metered β} {left : Reader} {wanted : TokenKind}

theorem bind_of_ok {gauge after : Gauge} {value : α} (done : action gauge = .ok value after) :
    (action >>= next) gauge = next value after := by
  show EStateM.bind action next gauge = _
  unfold EStateM.bind
  rw [done]

theorem bind_of_error {gauge after : Gauge} {halt : Halt} (stopped : action gauge = .error halt after) :
    (action >>= next) gauge = .error halt after := by
  show EStateM.bind action next gauge = _
  unfold EStateM.bind
  rw [stopped]

theorem bind_ok {gauge after : Gauge} {value : β} (done : (action >>= next) gauge = .ok value after) :
    ∃ found middle, action gauge = .ok found middle ∧ next found middle = .ok value after := by
  cases first : action gauge with
  | error halt stopped =>
    rw [bind_of_error first] at done
    cases done
  | ok found middle =>
    rw [bind_of_ok first] at done
    exact ⟨found, middle, rfl, done⟩

theorem expect_held (held : left.current.kind = wanted) (steps : Nat) :
    expect wanted ⟨left, steps⟩ = .ok left.current ⟨left.step, steps + 2⟩ := by
  show (if left.current.kind = wanted then once Reading.advance else once Reading.unexpected)
    ⟨left, steps + 1⟩ = _
  rw [if_pos held]
  rfl

theorem expect_other (other : left.current.kind ≠ wanted) (steps : Nat) :
    expect wanted ⟨left, steps⟩ = .error (.failed
      (.unexpectedToken left.current.position.line left.current.shown)) ⟨left, steps + 2⟩ := by
  show (if left.current.kind = wanted then once Reading.advance else once Reading.unexpected)
    ⟨left, steps + 1⟩ = _
  rw [if_neg other]
  rfl

theorem wholeNumber_fits {value : Nat} (held : left.current.kind = .integer)
    (fits : decimalBelow? UInt32.size left.current.text = some value) (steps : Nat) :
    wholeNumber ⟨left, steps⟩ = .ok value ⟨left.step, steps + 2⟩ := by
  unfold wholeNumber
  rw [bind_of_ok (expect_held held steps)]
  simp only [fits]
  rfl

theorem wholeNumber_large (held : left.current.kind = .integer)
    (large : decimalBelow? UInt32.size left.current.text = none) (steps : Nat) :
    wholeNumber ⟨left, steps⟩ = .error (.failed
      (.integerRange left.current.position.line left.current.text)) ⟨left.step, steps + 3⟩ := by
  unfold wholeNumber
  rw [bind_of_ok (expect_held held steps)]
  simp only [large]
  rfl

theorem wholeNumber_other (other : left.current.kind ≠ .integer) (steps : Nat) :
    wholeNumber ⟨left, steps⟩ = .error (.failed
      (.unexpectedToken left.current.position.line left.current.shown)) ⟨left, steps + 2⟩ :=
  bind_of_error (expect_other other steps)

/-- A number that is read fits a word. -/
theorem wholeNumber_read {reader next : Reader} {value : Nat}
    (done : Reading.wholeNumber reader = .ok value next) : reader.current.kind = .integer ∧
      decimalBelow? UInt32.size reader.current.text = some value ∧ next = reader.step := by
  obtain ⟨token, middle, taken, done⟩ := Reading.bind_ok done
  obtain ⟨found, _, looked, taken⟩ := Reading.bind_ok taken
  cases looked
  split at taken
  · next held =>
    cases taken
    -- A number that is too large would have failed.
    cases fits : decimalBelow? UInt32.size reader.current.text with
    | none =>
      simp only [fits] at done
      cases done
    | some found =>
      simp only [fits] at done
      obtain ⟨rfl, rfl⟩ := Reading.pure_ok done
      exact ⟨held, rfl, rfl⟩
  · cases taken

theorem answers_wholeNumber (plain : eager → ∀ tokens, known tokens → ahead tokens ≠ .leftParen) :
    Answers known eager (.token fun token => ∃ value, Constant token value) wholeNumber
      (fun _ : ι => Reading.wholeNumber) := by
  intro left steps knows
  have none : Part.Spellable (.token fun token => ∃ value, Constant token value) :=
    ⟨[⟨.character, "", .start⟩], Part.spells_token ⟨_, .character rfl⟩⟩
  -- There are three ways: the number fits, it is too large, or there is none.
  by_cases held : left.current.kind = .integer
  · cases fits : decimalBelow? UInt32.size left.current.text with
    | none =>
      rw [wholeNumber_large held fits]
      exact .failed (.refl left) rfl rfl fun _ _ same => by cases same
    | some value =>
      rw [wholeNumber_fits held fits]
      refine .takes (by simp [held]) (Part.spells_token ⟨_, .integer held fits⟩) ?_
      exact fun _ reader found next _ done => (wholeNumber_read done).2.2
  · rw [wholeNumber_other held]
    refine .refused rfl (fun some opens => plain some _ knows (left.ahead_sight.trans opens)) ?_
    exact fun _ reader found next sees done =>
      held ((Reader.Sees.kind sees).symm.trans (wholeNumber_read done).1)

/-- The length of an array is a number that is not zero. -/
theorem arrayLength_read {reader next : Reader} {value : Nat}
    (done : Reading.arrayLength reader = .ok value next) : reader.current.kind = .integer ∧
      reader.current.isZero = false ∧ next = reader.step := by
  obtain ⟨seen, _, looked, done⟩ := Reading.bind_ok done
  cases looked
  obtain ⟨length, middle, read, done⟩ := Reading.bind_ok done
  obtain ⟨held, fits, rfl⟩ := wholeNumber_read read
  -- Zero would have failed, so the value that is left is another one.
  split at done
  · cases done
  · next nonzero =>
    obtain ⟨-, rfl⟩ := Reading.pure_ok done
    exact ⟨held, by simp [Token.isZero, fits, nonzero], rfl⟩

/-- One is a length for every array. -/
theorem spells_length {token : Token} (held : token.kind = .integer) (nonzero : token.isZero = false) :
    Part.length.Spells [token] := by
  have one : decimalBelow? UInt32.size "1" = some 1 := by decide
  -- One element is small enough, whatever the elements are.
  have small (specifier : Specifier) (indirection : Nat) :
      1 * Ty.elementSize specifier indirection ≤ Ty.objectCeiling := by
    cases indirection with
    | zero => cases specifier <;> decide
    | succ count => exact (by decide : 1 * 4 ≤ Ty.objectCeiling)
  refine ⟨[⟨.integer, "1", .start⟩], .cons (.inr ⟨rfl, held, ?_⟩) .nil, fun rest => ?_⟩
  · rw [nonzero]
    decide
  · exact ⟨_, rfl, rfl, 1, one, by decide, small⟩

instance : Part.Spellable .length :=
  ⟨[⟨.integer, "1", .start⟩], spells_length rfl (by decide)⟩

/-- What follows the number of a length is decided by its value. -/
theorem arrayLength_eq (left : Reader) (steps : Nat) : arrayLength ⟨left, steps⟩ =
    (wholeNumber >>= fun length => if length = 0 then
      once (throw (.unexpectedToken left.current.position.line left.current.text))
    else return length) ⟨left, steps⟩ :=
  rfl

/-- Only zero and what is no number are refused as a length. -/
theorem never_length (zero : left.current.kind = .integer → left.current.isZero = true) :
    Reading.Ends (fun _ : ι => Reading.arrayLength) [left.current] Reading.Nowhere := by
  intro index reader value next sees done
  obtain ⟨held, nonzero, -⟩ := arrayLength_read done
  obtain ⟨rest, seen⟩ := reader.head_sight
  rw [Reader.Sees, seen] at sees
  have alike : reader.current.Alike left.current := by simpa using sees
  have same := zero (alike.kind.symm.trans held)
  -- Tokens that are alike are zero together.
  rcases alike with alike | ⟨-, -, alike⟩
  · rw [alike, same] at nonzero
    cases nonzero
  · rw [alike, same] at nonzero
    cases nonzero

theorem answers_arrayLength :
    Answers known False .length arrayLength (fun _ : ι => Reading.arrayLength) := by
  intro left steps knows
  rw [arrayLength_eq]
  by_cases held : left.current.kind = .integer
  · cases fits : decimalBelow? UInt32.size left.current.text with
    | none =>
      rw [bind_of_error (wholeNumber_large held fits steps)]
      exact .failed (.refl left) rfl rfl fun _ _ same => by cases same
    | some value =>
      rw [bind_of_ok (wholeNumber_fits held fits steps)]
      by_cases zero : value = 0
      · -- The number is named that has been taken.
        rw [if_pos zero]
        have shown : left.current.shown = left.current.text := by
          rw [Token.shown, if_neg (by simp [held])]
        have refused : Answer False .length (fun _ : ι => Reading.arrayLength) left
            (.error (.failed (.unexpectedToken left.current.position.line left.current.shown))
              ⟨left.step, steps + 3⟩ : EStateM.Result Halt Gauge Nat) :=
          .refused rfl False.elim (never_length fun _ => by simp [Token.isZero, fits, zero])
        rw [shown] at refused
        exact refused
      · rw [if_neg zero]
        refine .takes (by simp [held]) (spells_length held (by simp [Token.isZero, fits, zero])) ?_
        exact fun _ reader found next _ done => (arrayLength_read done).2.2
  · rw [bind_of_error (wholeNumber_other held steps)]
    exact .refused rfl False.elim (never_length fun same => absurd same held)

/-- The length of an array with the bracket that closes it. -/
def closedLength : Metered Nat := do
  let length ← arrayLength
  discard (expect .rightBracket)
  return length

/-- The same with clocks. -/
def closedReading : Reading Nat := do
  let length ← Reading.arrayLength
  discard (Reading.expect .rightBracket)
  return length

theorem answers_closedLength : Answers known False (Part.length.andThen (.lone .rightBracket))
    closedLength (fun _ : ι => closedReading) :=
  answers_arrayLength.bind fun _ => (Answers.expect (by decide) False.elim).discard.last

/-- A token that is taken is followed by the next one, and nothing is reported. -/
theorem expect_ok {gauge after : Gauge} {token : Token} (done : expect wanted gauge = .ok token after) :
    after.reader = gauge.reader.step := by
  by_cases held : gauge.reader.current.kind = wanted
  · cases (expect_held held gauge.steps).symm.trans done
    rfl
  · cases (expect_other held gauge.steps).symm.trans done

theorem wholeNumber_ok {gauge after : Gauge} {value : Nat} (done : wholeNumber gauge = .ok value after) :
    after.reader = gauge.reader.step := by
  obtain ⟨token, middle, taken, done⟩ := bind_ok done
  rw [← expect_ok taken]
  cases fits : decimalBelow? UInt32.size token.text <;> simp only [fits] at done <;> cases done
  rfl

theorem arrayLength_ok {gauge after : Gauge} {length : Nat} (done : arrayLength gauge = .ok length after) :
    after.reader = gauge.reader.step := by
  obtain ⟨reader, _, looked, done⟩ := bind_ok done
  cases looked
  obtain ⟨value, middle, read, done⟩ := bind_ok done
  rw [← wholeNumber_ok read]
  split at done <;> cases done
  rfl

/-- Nothing is reported before the closing bracket is taken. -/
theorem closedLength_silent {gauge after : Gauge} {length : Nat}
    (done : closedLength gauge = .ok length after) :
    after.reader.checker.reports = gauge.reader.checker.reports := by
  obtain ⟨found, between, counted, done⟩ := bind_ok done
  obtain ⟨_, last, closed, done⟩ := bind_ok done
  obtain ⟨_, middle, taken, closed⟩ := bind_ok closed
  cases closed
  cases done
  rw [expect_ok taken, arrayLength_ok counted]
  rfl

/-- An array that is too large is found behind the closing bracket, and the failure names the line of its
length. -/
theorem answers_sized {type : Nat → Option Ty} {types : ι → Nat → Option Ty} {name : String}
    {failures : ι → Reader → Failure} :
    Answers known False (Part.length.andThen (.lone .rightBracket))
      (do let line := (← look).current.position.line
          match type (← closedLength) with
          | some type => return type
          | none => once (throw (.arrayTooLarge line name)) : Metered Ty)
      (fun index => do
        let reader ← get
        match types index (← closedReading) with
        | some type => return type
        | none => throw (failures index reader) : ι → Reading Ty) := by
  intro left steps knows
  have answer : Answer False _ (fun _ : ι => closedReading) left (closedLength ⟨left, steps⟩) :=
    answers_closedLength left steps knows
  -- Whoever has room for the array has read the length and the bracket.
  have ended {tokens : List Token} {good : List Token → List Token → Prop}
      (ends : Reading.Ends (fun _ : ι => closedReading) tokens good) : Reading.Ends (fun index => do
        let reader ← get
        match types index (← closedReading) with
        | some type => return type
        | none => throw (failures index reader) : ι → Reading Ty) tokens good := by
    intro index reader value next sees done
    obtain ⟨seen, _, looked, done⟩ := Reading.bind_ok done
    cases looked
    obtain ⟨length, middle, read, done⟩ := Reading.bind_ok done
    have same : next = middle := by
      cases room : types index length <;> simp only [room] at done <;> cases done
      rfl
    rw [same]
    exact ends index reader length middle sees read
  have begun : (do
      let line := (← look).current.position.line
      match type (← closedLength) with
      | some type => return type
      | none => once (throw (.arrayTooLarge line name)) : Metered Ty) ⟨left, steps⟩ =
    (closedLength >>= fun length => match type length with
      | some type => return type
      | none => once (throw (.arrayTooLarge left.current.position.line name))) ⟨left, steps⟩ := rfl
  rw [begun]
  cases read : closedLength ⟨left, steps⟩ with
  | error halt after =>
    rw [bind_of_error read]
    rw [read] at answer
    cases answer with
    | failed goes reports line refuses =>
      refine .failed goes reports line fun row text same => ?_
      obtain ⟨shown, begins, takes, never⟩ := refuses row text same
      exact ⟨shown, begins, takes, ended never⟩
    | endless => exact .endless
  | ok length after =>
    rw [bind_of_ok read]
    have silent := closedLength_silent read
    rw [read] at answer
    cases type length with
    | none => exact .failed (.refl left) silent rfl fun _ _ same => by cases same
    | some type =>
      cases answer with
      | ok goes spells takes ends => exact .ok goes spells takes (ended ends)

theorem answers_arrayType (specifier : Specifier) (indirection : Nat) (name : String)
    (specifiers : ι → Specifier) (counts : ι → Nat) (names : ι → String) :
    Answers known False .brackets (arrayType specifier indirection name) fun index =>
      Reading.arrayType (specifiers index) (counts index) (names index) := by
  have metered : arrayType specifier indirection name = (do
      discard (expect .leftBracket)
      let line := (← look).current.position.line
      match Ty.sizedArray? specifier indirection (← closedLength) with
      | some type => return type
      | none => once (throw (.arrayTooLarge line name))) := by
    show (do
      discard (expect .leftBracket)
      let line := (← look).current.position.line
      let length ← arrayLength
      discard (expect .rightBracket)
      match Ty.sizedArray? specifier indirection length with
      | some type => return type
      | none => once (throw (.arrayTooLarge line name)) : Metered Ty) = _
    simp only [closedLength, bind_assoc, pure_bind]
  have plain (index : ι) : Reading.arrayType (specifiers index) (counts index) (names index) = (do
      discard (Reading.expect .leftBracket)
      let reader ← get
      match Ty.sizedArray? (specifiers index) (counts index) (← closedReading) with
      | some type => return type
      | none => throw (.arrayTooLarge reader.current.position.line (names index))) := by
    show (do
      discard (Reading.expect .leftBracket)
      let reader ← get
      let length ← Reading.arrayLength
      discard (Reading.expect .rightBracket)
      match Ty.sizedArray? (specifiers index) (counts index) length with
      | some type => return type
      | none => throw (.arrayTooLarge reader.current.position.line (names index)) : Reading Ty) = _
    simp only [closedReading, bind_assoc, pure_bind]
  rw [metered, funext plain]
  exact (Answers.expect (by decide) False.elim).skip answers_sized

end Numbers

theorem answers_variableType (specifier : Specifier) (indirection : Nat) (name : String)
    (specifiers : ι → Specifier) (counts : ι → Nat) (names : ι → String) :
    Answers known False (Part.brackets.either .nothing) (variableType specifier indirection name)
      fun index => Reading.variableType (specifiers index) (counts index) (names index) :=
  .choose (answers_arrayType _ _ _ _ _ _) .pure

theorem answers_declareObject (specifier : Specifier) (indirection : Nat) (name : String)
    (specifiers : ι → Specifier) (counts : ι → Nat) (names : ι → String) :
    Answers known False (Part.brackets.either .nothing) (declareObject specifier indirection name)
      fun index => Reading.declareObject (specifiers index) (counts index) (names index) := by
  unfold declareObject Reading.declareObject
  refine Answers.within ?_ (Part.andThen_nothing _)
  refine (answers_variableType _ _ _ _ _ _).bind fun type => (Answers.act ?_).discard
  exact Checker.adds_declareVariable trivial trivial type

theorem answers_declarator (specifier : Specifier) (specifiers : ι → Specifier) :
    Answers known False (.of Part.Object) (declarator turns specifier)
      fun index => Reading.declarator (specifiers index) := by
  unfold declarator Reading.declarator
  refine Answers.within ?_ Part.object_within
  refine answers_stars.bind fun indirection => (answers_name False.elim).bind fun name => ?_
  exact answers_declareObject _ _ _ _ _ _

theorem answers_declaration :
    Answers known False (.of Declaration.Derives) (declaration turns)
      (fun _ : ι => Reading.declaration) := by
  refine Answers.within ?_ Part.declaration_within
  refine answers_specifier.bind fun specifier => ?_
  refine (Answers.commaSeparated (fun _ => answers_declarator specifier Prod.snd) turns).skip ?_
  exact (Answers.expect (by decide) False.elim).discard

theorem answers_declarations :
    Answers known False (.of (Run Declaration.Derives)) (declarations turns)
      (fun _ : ι => Reading.declarations) :=
  ((Answers.many (fun _ _ => answers_declaration) turns).knowing fun _ _ => trivial).discard

theorem answers_parameter :
    Answers known False (.of Parameter.Derives) (parameter turns)
      (fun _ : ι => Reading.parameter) := by
  refine Answers.within ?_ Part.parameter_within
  refine answers_specifier.bind fun specifier => answers_stars.bind fun indirection => ?_
  refine Answers.within ?_ (Part.andThen_nothing _)
  refine (answers_name False.elim).bind fun name => (Answers.act ?_).discard.last
  exact Checker.adds_declareVariable trivial trivial _

theorem answers_furtherParameters (left : Nat) :
    Answers known False .furtherParameters (furtherParameters turns left)
      fun pair : ι × List Token => Reading.furtherParameters pair.2 := by
  induction left generalizing known ι with
  | zero => exact fun left steps _ => .endless
  | succ left ih =>
    refine .ticking (fun _ : ι => Reading.furtherParameters)
      (fun _ reader value next => Reading.spent_ok) ?_
    -- Without a comma the list is over; behind one stand the dots or another parameter.
    refine Answers.within (.choose ?_ .pure) Part.furtherParameters_within
    refine .past (by decide) (.choose ?_ ?_)
    · exact (Answers.held (by decide)).discard.last
    · refine answers_parameter.bind fun first => ?_
      have others (κ : Type) := @ih κ anywhere
      exact ((others ι).along fun pair : (ι × Token × List Token) × Ty => (pair.1.1, pair.1.2.2)).last

theorem answers_parameterList :
    Answers known False (.of Parameters.Derives) (parameterList turns)
      (fun _ : ι => Reading.parameterList) := by
  refine Answers.within (.choose ?_ ?_) Part.parameters_within
  · exact (Answers.held (by decide)).discard.last
  · refine answers_parameter.bind fun first => ?_
    -- The clock is that of the reader behind the first parameter.
    have others : Answers anywhere False .furtherParameters
        (do let others ← furtherParameters turns turns; return (first :: others.1, others.2))
        fun pair : (ι × Ty) × List Token =>
          (do let others ← Reading.furtherParameters pair.2
              return (pair.1.2 :: others.1, others.2) : Reading (List Ty × Bool)) :=
      (answers_furtherParameters turns).last
    exact others.covered fun index reader value _ done => ⟨(index, reader.remaining), value, done⟩

theorem answers_signature (specifier : Specifier) (indirection : Nat) (specifiers : ι → Specifier)
    (counts : ι → Nat) :
    Answers known False (.of Parameters.Derives) (signature turns specifier indirection)
      fun index => Reading.signature (specifiers index) (counts index) := by
  unfold signature Reading.signature
  refine Answers.acts (fun _ => Checker.adds_of_eq rfl rfl) fun scope => ?_
  exact answers_parameterList.last

/-! Expressions. -/

theorem answers_typeName :
    Answers known eager (.of TypeName) (typeName turns) (fun _ : ι => Reading.typeName) := by
  refine Answers.within ?_ Part.typeName_within
  refine (Answers.expect (by decide) fun _ => .inl rfl).skip ?_
  refine answers_specifier.bind fun specifier => answers_stars.bind fun indirection => ?_
  exact (Answers.expect (by decide) False.elim).discard.last

theorem answers_callArguments {argument : Metered Expression} {arguments : ι → Reading Expression}
    (each : ∀ known, Answers known False (.of (Phrase.Derives .expression)) argument arguments) :
    Answers known False (.either .nothing (.of (Commas (Phrase.Derives .expression))))
      (callArguments argument turns) fun index => Reading.callArguments (arguments index) :=
  .choose .pure (.commaSeparated each turns)

/-- An operand behind an operator is judged with it. -/
theorem answers_unary {kind : TokenKind} (sign : UnarySign) (spelled : sign.kind? = some kind)
    (plain : kind ∉ [.sizeofWord, .done]) {operand : Metered Expression}
    {operands : ι → Reading Expression} {judge : Expression → Verdict Expression}
    (knows : ∀ tokens, known tokens → ahead tokens = kind)
    (inner : Answers anywhere True (.of (Phrase.Derives .prefixed)) operand operands) :
    Answers known eager (.of (Phrase.Derives .prefixed))
      (do discard (once Reading.advance); once (Reading.check (judge (← operand))))
      (fun index => do discard Reading.advance; Reading.check (judge (← operands index))) := by
  simp only [List.mem_cons, List.not_mem_nil, or_false, not_or] at plain
  refine Answers.within ?_ (Part.unary_within spelled plain.1)
  exact (Answers.advance plain.2 knows).skip inner.calm.judged

/-- Where no type in parentheses starts, an operand is none with a cast. -/
theorem answers_untyped {operand : Metered Expression} {operands : ι → Reading Expression}
    (inner : Answers known True (.of (Phrase.Derives .prefixed)) operand operands)
    (knows : ∀ tokens, known tokens → opensType tokens = false) :
    Answers known True (.of Part.Untyped) operand operands := by
  intro left steps told
  -- What is in sight from the start shows that no type is opened, whatever is taken of it.
  have plain := knows _ told
  refine (inner left steps told).imp (fun _ _ => id) (fun taken next goes spells => ?_)
    (fun taken named goes begins => ?_) (fun _ => id) fun _ _ _ _ _ => id
  · rw [goes.sight] at plain
    exact Part.spells_untyped spells plain
  · obtain ⟨rest, seen⟩ := named.head_sight
    rw [goes.sight, seen] at plain
    exact Part.begins_untyped begins plain

/-- Without a level left nothing is read, so readings without one need no comparison. -/
theorem answers_levelled {part : Part} {metered : Metered Expression}
    {readings : Nat × Expression → Reading Expression}
    (answers : Answers known eager part metered readings) :
    Answers known eager part metered fun pair : Nat × Expression =>
      match pair.1 with
      | 0 => Reading.tooDeep
      | levels + 1 => readings (levels, pair.2) := by
  refine answers.covered fun pair reader value next done => ?_
  obtain ⟨levels, operand⟩ := pair
  cases levels with
  | zero => cases done
  | succ levels => exact ⟨(levels, operand), value, done⟩

/-- An operator behind an operand is judged before it is taken. -/
theorem answers_stepped (op : StepOp) (operand : Expression) {further : Expression → Metered Expression}
    (knows : ∀ tokens, known tokens → ahead tokens = op.kind)
    (behind : ∀ value, Answers anywhere False .suffixes (further value)
      fun pair : Nat × Expression => Reading.furtherSuffixes pair.2 pair.1) :
    Answers known False .suffixes
      (do let operand ← once (Reading.check (checkStep op operand))
          discard (once Reading.advance)
          further operand)
      (fun pair : Nat × Expression => do
          let operand ← Reading.check (checkStep op pair.2)
          discard Reading.advance
          Reading.furtherSuffixes operand pair.1) := by
  refine Answers.within ?_ (Part.suffixes_step op)
  refine .checks fun value => ?_
  have further : op.kind ≠ .done := by cases op <;> decide
  refine (Answers.advance further knows).skip ?_
  exact (behind value).along fun index : (Nat × Expression) × Expression => (index.1.1, index.2)

mutual

theorem answers_expression (turns : Nat) (known : List Token → Prop) : (levels : Nat) →
    Answers known True (.of (Phrase.Derives .expression)) (expression turns levels)
      fun more => Reading.expression more
  | 0 => by
    unfold expression
    exact .tooDeep
  | levels + 1 => by
    -- Fewer levels can only end sooner, and with none reading cannot succeed.
    refine .deeper (fun reader value next done => ?_) ?_
    · unfold Reading.expression at done
      cases done
    · unfold expression Reading.expression
      exact answers_operation turns known Tier.all levels
termination_by levels => (levels, 0)

theorem answers_operation (turns : Nat) (known : List Token → Prop) :
    (tiers : List Tier) → (levels : Nat) →
      Answers known True (.of (Phrase.Derives (.operation tiers))) (operation turns tiers levels)
        fun more => Reading.operation tiers more
  | [], levels => by
    unfold operation Reading.operation
    exact (answers_prefixed turns known levels).within Part.operand_within
  | tier :: tighter, levels => by
    unfold operation Reading.operation
    refine Answers.within ?_ Part.operation_within
    -- Any tokens may stand in front of the operators that follow.
    refine (answers_operation turns known tighter levels).bind fun left => ?_
    exact answers_furtherOperands turns anywhere tier tighter left levels
termination_by tiers levels => (levels, tiers.length + 4)

theorem answers_furtherOperands (turns : Nat) (known : List Token → Prop) (tier : Tier)
    (tighter : List Tier) (left : Expression) (levels : Nat) :
    Answers known False (.operands tier tighter) (furtherOperands turns tier tighter left levels)
      fun pair : Nat × Expression => Reading.furtherOperands tier tighter pair.2 pair.1 := by
  unfold furtherOperands Reading.furtherOperands
  refine kind fun found => ?_
  cases ruled : tier.rule? found with
  | none => exact Answers.pure.within Part.operands_none
  | some rule =>
    match levels with
    | 0 => exact .tooDeep
    | levels + 1 =>
      have further : found ≠ .done := ne_done_of_rule ruled
      obtain ⟨sign, rfl, rfl, rfl⟩ := BinarySign.rule_eq_some.mp ruled
      -- From here on it is known which operator stands in front, so the rest of the part is that of
      -- the operator.
      have joined : Answers (fun tokens => known tokens ∧ ahead tokens = sign.kind) False
          (.operands sign.tier tighter)
          (do discard (once Reading.advance)
              let right ← operation turns tighter levels
              let left ← once (Reading.check (sign.check left right))
              furtherOperands turns sign.tier tighter left levels)
          (fun pair : Nat × Expression => do
              discard Reading.advance
              let right ← Reading.operation tighter pair.1
              let left ← Reading.check (sign.check pair.2 right)
              Reading.furtherOperands sign.tier tighter left pair.1) := by
        refine Answers.within ?_ (Part.operands_more sign tighter)
        refine .past further ?_
        refine Answers.bind ((answers_operation turns anywhere tighter levels).along Prod.fst).calm
          fun right => ?_
        refine .checks fun joined => ?_
        have behind := answers_furtherOperands turns anywhere sign.tier tighter joined levels
        exact behind.along fun index : ((Nat × Expression) × Expression) × Expression =>
          (index.1.1.1, index.2)
      exact answers_levelled joined
termination_by (levels, 0)

theorem answers_prefixed (turns : Nat) (known : List Token → Prop) : (levels : Nat) →
    Answers known True (.of (Phrase.Derives .prefixed)) (prefixed turns levels)
      fun more => Reading.prefixed more
  | 0 => by
    unfold prefixed
    exact .tooDeep
  | levels + 1 => by
    have operand (known : List Token → Prop) := answers_prefixed turns known levels
    have suffixed (known : List Token → Prop) := (answers_suffixed turns known levels).within
      Part.suffixed_within
    refine .deeper (fun reader value next done => ?_) ?_
    · unfold Reading.prefixed at done
      cases done
    unfold prefixed Reading.prefixed
    refine .peek fun typed => kind fun found => ?_
    cases found with
    | bang => exact answers_unary .not rfl (by decide) (fun _ told => told.2) (operand _)
    | minus => exact answers_unary .negate rfl (by decide) (fun _ told => told.2) (operand _)
    | star => exact answers_unary .dereference rfl (by decide) (fun _ told => told.2) (operand _)
    | ampersand => exact answers_unary .address rfl (by decide) (fun _ told => told.2) (operand _)
    -- Behind this word a type in parentheses and an operand are told apart by the next two tokens.
    | sizeofWord =>
      refine Answers.within ?_ Part.sizeof_within
      refine .past (by decide) (.calm (.peek fun named => ?_))
      cases named with
      | true => exact answers_typeName.last.within (Part.within_left _ _)
      | false =>
        have plain := answers_untyped (operand fun tokens => anywhere tokens ∧ opensType tokens = false)
          fun _ told => told.2
        exact plain.judged.within (Part.within_right _ _)
    | leftParen =>
      cases typed with
      | true =>
        refine Answers.within ?_ Part.cast_within
        exact answers_typeName.bind fun target => ((operand _).along Prod.fst).calm.judged
      | false => exact suffixed _
    | _ => exact suffixed _
termination_by levels => (levels, 3)

theorem answers_suffixed (turns : Nat) (known : List Token → Prop) (levels : Nat) :
    Answers known True (.of (Phrase.Derives .suffixed)) (suffixed turns levels)
      fun more => Reading.suffixed more := by
  unfold suffixed Reading.suffixed
  refine Answers.within ?_ Part.primary_within
  refine (answers_primary turns known levels).bind fun operand => ?_
  exact answers_furtherSuffixes turns anywhere operand levels
termination_by (levels, 2)

theorem answers_furtherSuffixes (turns : Nat) (known : List Token → Prop) (operand : Expression)
    (levels : Nat) :
    Answers known False .suffixes (furtherSuffixes turns operand levels)
      fun pair : Nat × Expression => Reading.furtherSuffixes pair.2 pair.1 := by
  unfold furtherSuffixes Reading.furtherSuffixes
  refine kind fun found => ?_
  cases found with
  | leftBracket =>
    match levels with
    | 0 => exact .tooDeep
    | levels + 1 =>
      -- Only a chain that starts with a bracket is looked at here, as the kind in front is known.
      have subscript : Answers (fun tokens => known tokens ∧ ahead tokens = .leftBracket) False .suffixes
          (do discard (once Reading.advance)
              let index ← expression turns levels
              let operand ← once (Reading.check (checkSubscript operand index))
              discard (expect .rightBracket)
              furtherSuffixes turns operand levels)
          (fun pair : Nat × Expression => do
              discard Reading.advance
              let index ← Reading.expression pair.1
              let operand ← Reading.check (checkSubscript pair.2 index)
              discard (Reading.expect .rightBracket)
              Reading.furtherSuffixes operand pair.1) := by
        refine Answers.within ?_ Part.suffixes_subscript
        refine .past (by decide) ?_
        refine Answers.bind ((answers_expression turns anywhere levels).along Prod.fst).calm
          fun index => ?_
        refine .checks fun element => (Answers.expect (by decide) False.elim).skip ?_
        exact (answers_furtherSuffixes turns anywhere element levels).along
          fun index : ((Nat × Expression) × Expression) × Expression => (index.1.1.1, index.2)
      exact answers_levelled subscript
  | increment =>
    match levels with
    | 0 => exact .tooDeep
    | levels + 1 =>
      exact answers_levelled (answers_stepped .increment operand (fun _ told => told.2) fun stepped =>
        answers_furtherSuffixes turns anywhere stepped levels)
  | decrement =>
    match levels with
    | 0 => exact .tooDeep
    | levels + 1 =>
      exact answers_levelled (answers_stepped .decrement operand (fun _ told => told.2) fun stepped =>
        answers_furtherSuffixes turns anywhere stepped levels)
  | _ => exact Answers.pure.within Part.suffixes_none
termination_by (levels, 0)

theorem answers_primary (turns : Nat) (known : List Token → Prop) (levels : Nat) :
    Answers known True (.of (Phrase.Derives .primary)) (primary turns levels)
      fun more => Reading.primary more := by
  have inside := answers_expression turns anywhere levels
  unfold primary Reading.primary
  refine kind fun found => ?_
  -- A constant is the token in hand.
  have constant {kind : TokenKind} (further : kind ≠ .done)
      (spelled : ∀ token : Token, token.kind = kind → ∃ value, Constant token value) :
      Answers (fun tokens => known tokens ∧ ahead tokens = kind) True
        (.of (Phrase.Derives .primary)) (once Reading.advance) fun _ : Nat => Reading.advance := by
    refine (Answers.held further).within ?_
    rintro start rest ⟨token, rfl, same⟩
    exact Part.constant_within _ _ ⟨token, rfl, spelled token same⟩
  cases found with
  | leftParen =>
    refine Answers.within ?_ Part.parenthesised_within
    refine .past (by decide) ?_
    exact inside.calm.bind fun inner => (Answers.expect (by decide) False.elim).discard.last
  | character => exact (constant (by decide) fun _ spelled => ⟨_, .character spelled⟩).last
  | string => exact (constant (by decide) fun _ spelled => ⟨_, .string spelled⟩).last
  | real => exact (constant (by decide) fun _ spelled => ⟨_, .real spelled⟩).last
  | integer =>
    refine ((answers_wholeNumber fun _ tokens told => ?_).last).within Part.constant_within
    rw [told.2]
    decide
  | identifier =>
    refine Answers.within ?_ Part.named_within
    refine Answers.bind (answers_name fun _ tokens told => by rw [told.2]; decide) fun name => ?_
    refine .acts (Checker.adds_resolve trivial) fun symbol => .choose ?_ (.look fun reader => .pure)
    refine .past (by decide) ?_
    -- The arguments are compared with readings for whatever the name is resolved to.
    refine Answers.bind (answers_callArguments fun known =>
      (answers_expression turns known levels).calm.along fun pair : (Nat × String) × SymbolId =>
        pair.1.1) fun arguments => ?_
    refine .acts (fun checker => Checker.adds_record (fun _ _ => trivial) checker) fun call => ?_
    exact (Answers.expect (by decide) False.elim).discard.last
  | _ => exact .unexpected fun _ tokens told => by rw [told.2]; simp
termination_by (levels, 1)

end

end Metered

end SmallC
