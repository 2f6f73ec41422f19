import Mathlib
import SmallC.Proofs.Derivations.Stages

/-! Whatever is read has a derivation, and reading has checked what the derivation says. -/

namespace SmallC

/-- Between two stages stands something of the grammar, and checking it gives the value. -/
def Yields {α β : Type} (grammar : List Token → β → List Token → Prop) (meaning : β → Checking α)
    (start : Stage) (value : α) (final : Stage) : Prop :=
  ∃ thing, grammar start.tokens thing final.tokens ∧
    meaning thing start.checker = (value, final.checker) ∧ Ended final.tokens

namespace Reading

/-- Where an action succeeds it has read something of the grammar and checked it. -/
def Sound {α β : Type} (action : Reading α) (grammar : List Token → β → List Token → Prop)
    (meaning : β → Checking α) : Prop :=
  ∀ start, Ended start.tokens → Leads action start (Yields grammar meaning start)

section Combinators

variable {α β : Type} {grammar : List Token → β → List Token → Prop} {meaning : β → Checking α}

theorem sound_whileAt {test : TokenKind → Bool} {item : Reading α}
    (sound : ∀ start, Ended start.tokens → test (ahead start.tokens) = true →
      Leads item start (Yields grammar meaning start)) (clock : List Token) :
    Sound (whileAt test item clock) (Run grammar) (List.mapM' meaning) := by
  -- The clock is as long as the tokens, so it never ends before the items do.
  induction clock with
  | nil =>
    intro start ended
    refine .bind (.kind ?_)
    split
    · exact .unexpected
    · exact .pure ⟨[], .nil _, rfl, ended⟩
  | cons _ clock ih =>
    intro start ended
    refine .bind (.kind ?_)
    split
    · next passes =>
      refine .bind ((sound _ ended passes).weaken ?_)
      rintro first middle ⟨thing, derived, checked, ended⟩
      refine .bind ((ih middle ended).weaken ?_)
      rintro others final ⟨things, run, all, ended⟩
      refine .pure ⟨thing :: things, .cons derived run, ?_, ended⟩
      exact Checking.then_eq checked (Checking.then_eq all rfl)
    · exact .pure ⟨[], .nil _, rfl, ended⟩

theorem sound_many {test : TokenKind → Bool} {item : Reading α}
    (sound : ∀ start, Ended start.tokens → test (ahead start.tokens) = true →
      Leads item start (Yields grammar meaning start)) :
    Sound (many test item) (Run grammar) (List.mapM' meaning) :=
  fun start ended => .bind (.get fun _ _ => sound_whileAt sound _ start ended)

/-- A token that is not the last is taken. -/
theorem leads_advance {tokens : List Token} {checker : Checker} {good : Token → Stage → Prop}
    (ended : Ended tokens) (further : ahead tokens ≠ .done)
    (holds : ∀ token rest, tokens = token :: rest → Ended rest → good token ⟨rest, checker⟩) :
    Leads advance ⟨tokens, checker⟩ good := by
  obtain _ | ⟨token, rest⟩ := tokens
  · exact ended.elim
  have longer : Ended rest := ended.tail further
  exact .advance longer.pos (holds token rest rfl longer)

theorem sound_afterComma {item : Reading α} (sound : Sound item grammar meaning) {start : Stage}
    (ended : Ended start.tokens) (separated : ahead start.tokens = .comma) :
    Leads (do discard advance; item) start (Yields (AfterComma grammar) meaning start) := by
  refine .bind (.discard (leads_advance ended (by simp [separated]) ?_))
  intro comma rest split ended
  refine (sound ⟨rest, start.checker⟩ ended).weaken ?_
  rintro value final ⟨thing, derived, checked, ended⟩
  rw [split] at separated
  exact ⟨thing, ⟨comma, rest, split, separated, derived⟩, checked, ended⟩

theorem sound_commaSeparated {item : Reading α} (sound : Sound item grammar meaning) :
    Sound (commaSeparated item) (Commas grammar) (List.mapM' meaning) := by
  intro start ended
  refine .bind ((sound start ended).weaken ?_)
  rintro first middle ⟨thing, derived, checked, ended⟩
  refine .bind ((sound_many (fun start ended separated => sound_afterComma sound ended ?_)
    middle ended).weaken ?_)
  · simpa using separated
  rintro others final ⟨things, run, all, ended⟩
  -- The first item and the further ones make up the list.
  refine .pure ⟨thing :: things, (commas_iff _).mpr ⟨_, _, _, rfl, derived, run⟩, ?_, ended⟩
  exact Checking.then_eq checked (Checking.then_eq all rfl)

theorem Sound.weaken {action : Reading α} (sound : Sound action grammar meaning)
    {weaker : List Token → β → List Token → Prop}
    (implies : ∀ start thing rest, grammar start thing rest → weaker start thing rest) :
    Sound action weaker meaning := by
  refine fun start ended => (sound start ended).weaken ?_
  rintro value final ⟨thing, derived, checked, ended⟩
  exact ⟨thing, implies _ _ _ derived, checked, ended⟩

theorem Sound.discard {action : Reading α} (sound : Sound action grammar meaning) :
    Sound (Functor.discard action) grammar fun thing => Functor.discard (meaning thing) := by
  refine fun start ended => .discard ((sound start ended).weaken ?_)
  rintro value final ⟨thing, derived, checked, ended⟩
  exact ⟨thing, derived, Checking.discard_eq checked, ended⟩

end Combinators

/-! Names, types and numbers, whose reading leaves the checker alone. -/

theorem leads_name {tokens : List Token} {checker : Checker} {good : String → Stage → Prop}
    (ended : Ended tokens) (holds : ∀ token rest, tokens = token :: rest →
      token.kind = .identifier → Ended rest → good token.text ⟨rest, checker⟩) :
    Leads name ⟨tokens, checker⟩ good := by
  refine .bind (.expect ended (by simp) ?_)
  intro token rest split spelled ended
  exact .pure (holds token rest split spelled ended)

theorem leads_specifier {tokens : List Token} {checker : Checker}
    {good : Specifier → Stage → Prop} (ended : Ended tokens)
    (holds : ∀ token specifier rest, tokens = token :: rest → token.kind = .specifier specifier →
      Ended rest → good specifier ⟨rest, checker⟩) :
    Leads specifier ⟨tokens, checker⟩ good := by
  refine .bind (.kind ?_)
  split
  · next found specified =>
    refine .bind (.discard (leads_advance ended (by simp [specified]) ?_))
    rintro token rest rfl ended
    exact .pure (holds token found rest rfl specified ended)
  · exact .unexpected

theorem leads_stars {tokens : List Token} {checker : Checker} {good : Nat → Stage → Prop}
    (ended : Ended tokens) (holds : ∀ count rest, Stars tokens count rest → Ended rest →
      good count ⟨rest, checker⟩) : Leads stars ⟨tokens, checker⟩ good := by
  -- Stars are read like items that mean nothing.
  have star (start : Stage) (ended : Ended start.tokens)
      (starred : decide (ahead start.tokens = .star) = true) :
      Leads advance start (Yields Starred Pure.pure start) := by
    have starred := of_decide_eq_true starred
    refine leads_advance ended (by simp [starred]) ?_
    intro token rest split ended
    rw [split] at starred
    exact ⟨token, ⟨split, starred⟩, rfl, ended⟩
  have idle (found : List Token) (checker : Checker) :
      found.mapM' (Pure.pure : Token → Checking Token) checker = (found, checker) := by
    induction found with
    | nil => rfl
    | cons token found ih => exact Checking.then_eq rfl (Checking.then_eq ih rfl)
  refine .bind ((sound_many star _ ended).weaken ?_)
  rintro found ⟨rest, known⟩ ⟨listed, run, checked, ended⟩
  obtain ⟨rfl, rfl⟩ := Prod.mk.inj ((idle _ _).symm.trans checked)
  exact .pure (holds _ _ (stars_iff.mpr ⟨_, rfl, run⟩) ended)

theorem sound_typeName : Sound typeName TypeName Pure.pure := by
  rintro ⟨tokens, checker⟩ ended
  refine .bind (.discard (.expect ended (by simp) ?_))
  rintro opening rest rfl opens ended
  refine .bind (leads_specifier ended ?_)
  rintro word specifier start rfl specified ended
  refine .bind (leads_stars ended ?_)
  intro count middle stars ended
  refine .bind (.discard (.expect ended (by simp) ?_))
  rintro closing rest rfl closes ended
  exact .pure ⟨_, .scalar opens specified stars closes, rfl, ended⟩

theorem startsTypeName_of_stage {reader : Reader} {tokens : List Token} {checker : Checker}
    (reached : reader.stage = ⟨tokens, checker⟩) :
    startsTypeName reader = .ok (opensType tokens) reader := by
  cases reached
  obtain ⟨current, rest, known, limit⟩ := reader
  cases rest <;> simp [startsTypeName, opensType, Reader.remaining, bind, EStateM.bind, get, getThe,
    MonadStateOf.get, EStateM.get, pure, EStateM.pure]

theorem startsTypeName_of_outlook {reader : Reader} {tokens : List Token} {checker : Checker}
    (reached : reader.outlook = ⟨tokens, checker⟩) :
    startsTypeName reader = .ok (opensType tokens) reader := by
  obtain ⟨rfl, -⟩ := Stage.mk.inj reached
  obtain ⟨current, rest, known, limit⟩ := reader
  -- Only the token in hand and the next one count, and both are in sight.
  have same : opensType (upToEnd current rest) = opensType (current :: rest) := by
    cases rest with
    | nil => unfold upToEnd; split <;> simp [opensType, Token.atEnd, TokenKind.isSpecifier]
    | cons next rest =>
      unfold upToEnd
      split
      · next done => simp [opensType, done]
      · cases rest <;> (unfold upToEnd; split <;> rfl)
  rw [same]
  exact startsTypeName_of_stage rfl

theorem Leads.startsTypeName {tokens : List Token} {checker : Checker} {good : Bool → Stage → Prop}
    (holds : good (opensType tokens) ⟨tokens, checker⟩) :
    Leads startsTypeName ⟨tokens, checker⟩ good := by
  intro reader value next reached done
  rw [startsTypeName_of_outlook reached] at done
  cases done
  exact reached ▸ holds

theorem leads_wholeNumber {tokens : List Token} {checker : Checker} {good : Nat → Stage → Prop}
    (ended : Ended tokens) (holds : ∀ token value rest, tokens = token :: rest →
      token.kind = .integer → decimalBelow? UInt32.size token.text = some value → Ended rest →
      good value ⟨rest, checker⟩) : Leads wholeNumber ⟨tokens, checker⟩ good := by
  refine .bind (.expect ended (by simp) ?_)
  intro token rest split spelled ended
  cases fits : decimalBelow? UInt32.size token.text with
  | none => exact .throw _
  | some value => exact .pure (holds token value rest split spelled fits ended)

/-! Expressions. -/

/-- Expressions of the grammar between two stages. -/
abbrev YieldsPhrase (rung : Rung) : Stage → Expression → Stage → Prop :=
  Yields (Phrase.Derives rung) Phrase.elaborate

/-- What is read is of the given rung. -/
abbrev SoundAt (rung : Rung) (action : Reading Expression) : Prop :=
  Sound action (Phrase.Derives rung) Phrase.elaborate

theorem Leads.check {α : Type} {verdict : Verdict α} {tokens : List Token} {checker : Checker}
    {good : α → Stage → Prop}
    (holds : ∀ value final, Checker.record verdict checker = (value, final) →
      good value ⟨tokens, final⟩) : Leads (Reading.check verdict) ⟨tokens, checker⟩ good :=
  .act (Checker.blind_record verdict) holds

theorem elaborateAll_eq_mapM (phrases : List Phrase) :
    Phrase.elaborateAll phrases = phrases.mapM' Phrase.elaborate := by
  induction phrases with
  | nil => rfl
  | cons first rest ih =>
    rw [Phrase.elaborateAll, ih]
    rfl

theorem leads_unary {operand : Reading Expression} (sound : SoundAt .prefixed operand)
    (sign : UnarySign) {tokens : List Token} {checker : Checker} (ended : Ended tokens)
    (spelled : sign.kind? = some (ahead tokens)) (plain : ahead tokens ≠ .sizeofWord) :
    Leads (do discard advance; check (sign.check (← operand))) ⟨tokens, checker⟩
      (YieldsPhrase .prefixed ⟨tokens, checker⟩) := by
  -- A sign is a token that is not the last.
  have further : ahead tokens ≠ .done := by
    intro last
    rw [last] at spelled
    cases sign <;> cases spelled
  refine .bind (.discard (leads_advance ended further ?_))
  rintro operator rest rfl ended
  refine .bind ((sound _ ended).weaken ?_)
  rintro value ⟨middle, known⟩ ⟨phrase, derived, checked, ended⟩
  refine .check fun node final recorded => ?_
  refine ⟨.unary sign phrase, .unary spelled (absurd · plain) derived, ?_, ended⟩
  exact Checking.then_eq checked recorded

/-- The word for a size stands before a type in parentheses or before an operand. -/
theorem leads_sizeof {operand : Reading Expression} (sound : SoundAt .prefixed operand)
    {tokens : List Token} {checker : Checker} (found : ahead tokens = .sizeofWord)
    (ended : Ended tokens) :
    Leads (do
      discard advance
      if ← startsTypeName then return sizeofType (← typeName)
      check (checkSizeof (← operand))) ⟨tokens, checker⟩ (YieldsPhrase .prefixed ⟨tokens, checker⟩) := by
  refine .bind (.discard (leads_advance ended (by simp [found]) ?_))
  rintro word rest rfl ended
  refine .bind (.startsTypeName ?_)
  -- A parenthesis with a specifier behind it opens a type, and anything else an operand.
  split
  · refine .bind ((sound_typeName _ ended).weaken ?_)
    rintro type final ⟨named, derived, checked, ended⟩
    obtain ⟨rfl, known⟩ := Checking.pure_eq.mp checked
    refine .pure ⟨.sizeofType named, .sizeofType found derived, ?_, ended⟩
    exact Checking.pure_eq.mpr ⟨rfl, known⟩
  · next untyped =>
    refine .bind ((sound _ ended).weaken ?_)
    rintro value ⟨after, known⟩ ⟨phrase, derived, checked, ended⟩
    refine .check fun node final recorded => ?_
    refine ⟨.unary .sizeof phrase, .unary ?_ ?_ derived, ?_, ended⟩
    · exact congrArg some found.symm
    · exact fun _ => Bool.eq_false_iff.mpr untyped
    · exact Checking.then_eq checked recorded

/-- A type in parentheses before an operand is a cast. -/
theorem leads_cast {operand : Reading Expression} (sound : SoundAt .prefixed operand)
    {tokens : List Token} {checker : Checker} (ended : Ended tokens) :
    Leads (do
      let target ← typeName
      check (checkCast target (← operand))) ⟨tokens, checker⟩
      (YieldsPhrase .prefixed ⟨tokens, checker⟩) := by
  refine .bind ((sound_typeName _ ended).weaken ?_)
  rintro type middle ⟨named, typed, checked, ended⟩
  obtain ⟨rfl, known⟩ := Checking.pure_eq.mp checked
  refine .bind ((sound _ ended).weaken ?_)
  rintro value ⟨after, later⟩ ⟨phrase, derived, checked, ended⟩
  refine .check fun node final recorded => ?_
  refine ⟨.unary (.cast named) phrase, .cast typed derived, ?_, ended⟩
  exact Checking.then_eq (known ▸ checked) recorded

/-- The arguments of a call are none, or expressions between commas. -/
theorem leads_arguments {levels : Nat} {tokens : List Token} {checker : Checker}
    (inner : SoundAt .expression (expression levels)) (ended : Ended tokens) :
    Leads (callArguments (expression levels)) ⟨tokens, checker⟩
      (Yields (fun start phrases rest => (phrases = [] ∧ start = rest) ∨
        Commas (Phrase.Derives .expression) start phrases rest) Phrase.elaborateAll
          ⟨tokens, checker⟩) := by
  unfold callArguments
  refine .bind (.kind ?_)
  split
  · exact .pure ⟨[], .inl ⟨rfl, rfl⟩, rfl, ended⟩
  · refine (sound_commaSeparated inner _ ended).weaken ?_
    rintro arguments ⟨after, later⟩ ⟨phrases, passed, checked, ended⟩
    rw [← elaborateAll_eq_mapM] at checked
    exact ⟨phrases, .inr passed, checked, ended⟩

/-- A step behind an operand is an operand of the suffixes behind it. -/
theorem leads_step (op : StepOp) {operand : Expression} {start middle : Stage}
    {further : Expression → Reading Expression}
    (read : YieldsPhrase .suffixed start operand middle) (spelled : ahead middle.tokens = op.kind)
    (goesOn : ∀ {stepped next}, YieldsPhrase .suffixed start stepped next →
      Leads (further stepped) next (YieldsPhrase .suffixed start)) :
    Leads (do
      let stepped ← check (checkStep op operand)
      discard advance
      further stepped) middle (YieldsPhrase .suffixed start) := by
  obtain ⟨phrase, derived, checked, ended⟩ := read
  refine .bind (.check fun node final recorded => ?_)
  -- Either sign is a token of its own, and not the last.
  have more : ahead middle.tokens ≠ .done := by
    rw [spelled]
    cases op <;> simp [StepOp.kind]
  refine .bind (.discard (leads_advance ended more ?_))
  intro sign rest split ended
  rw [split] at spelled derived
  refine goesOn ⟨.step op phrase, .step derived spelled, ?_, ended⟩
  exact Checking.then_eq checked recorded

mutual

theorem sound_expression : (levels : Nat) → SoundAt .expression (expression levels)
  | 0 => by
    unfold expression
    exact fun start ended => .tooDeep
  | levels + 1 => by
    unfold expression
    exact sound_operation Tier.all levels
termination_by levels => (levels, 0)

theorem sound_operation : (tiers : List Tier) → (levels : Nat) →
    SoundAt (.operation tiers) (operation tiers levels)
  | [], levels => by
    unfold operation
    exact (sound_prefixed levels).weaken fun _ _ _ => .operand
  | tier :: tighter, levels => by
    unfold operation
    intro start ended
    refine .bind ((sound_operation tighter levels start ended).weaken ?_)
    rintro left middle ⟨phrase, derived, checked, ended⟩
    -- What has been read so far is the left operand of the first operator.
    exact leads_furtherOperands tier tighter levels ⟨phrase, .tighter derived, checked, ended⟩
termination_by tiers levels => (levels, tiers.length + 4)

/-- What is on the left becomes the left operand of whatever operators follow it. -/
theorem leads_furtherOperands (tier : Tier) (tighter : List Tier) {left : Expression}
    (levels : Nat) {start middle : Stage}
    (read : YieldsPhrase (.operation (tier :: tighter)) start left middle) :
    Leads (furtherOperands tier tighter left levels) middle
      (YieldsPhrase (.operation (tier :: tighter)) start) := by
  unfold furtherOperands
  refine .bind (.kind ?_)
  -- Either the chain is over, or a level is taken for the operand behind the operator.
  cases ruled : tier.rule? (ahead middle.tokens) with
  | none => exact .pure read
  | some rule =>
    match levels with
    | 0 => exact .tooDeep
    | levels + 1 =>
      obtain ⟨sign, spelled, placed, rfl⟩ := BinarySign.rule_eq_some.mp ruled
      obtain ⟨phrase, derived, checked, ended⟩ := read
      have further : ahead middle.tokens ≠ .done := by
        rw [← spelled]
        cases sign <;> simp [BinarySign.kind]
      refine .bind (.discard (leads_advance ended further ?_))
      intro operator rest split ended
      rw [split] at spelled derived
      refine .bind ((sound_operation tighter levels _ ended).weaken ?_)
      rintro right ⟨after, known⟩ ⟨other, second, judged, ended⟩
      refine .bind (.check fun node final recorded => ?_)
      refine leads_furtherOperands tier tighter levels ⟨.binary sign phrase other, ?_, ?_, ended⟩
      · exact .binary derived spelled.symm placed second
      · exact Checking.then_eq checked (Checking.then_eq judged recorded)
termination_by (levels, 0)

theorem sound_prefixed : (levels : Nat) → SoundAt .prefixed (prefixed levels)
  | 0 => by
    unfold prefixed
    exact fun start ended => .tooDeep
  | levels + 1 => by
    have operand := sound_prefixed levels
    have suffixed : SoundAt .prefixed (suffixed levels) :=
      (sound_suffixed levels).weaken fun _ _ _ => .suffixed
    unfold prefixed
    rintro ⟨tokens, checker⟩ ended
    refine .bind (.startsTypeName (.bind (.kind ?_)))
    -- The kinds of the tokens that may stand before an operand, in the order of the reader.
    cases found : ahead tokens with
    | bang => exact leads_unary operand .not ended (congrArg some found.symm) (by simp [found])
    | minus => exact leads_unary operand .negate ended (congrArg some found.symm) (by simp [found])
    | star => exact leads_unary operand .dereference ended (congrArg some found.symm) (by simp [found])
    | ampersand => exact leads_unary operand .address ended (congrArg some found.symm) (by simp [found])
    | sizeofWord => exact leads_sizeof operand found ended
    | leftParen =>
      dsimp only
      split
      · exact leads_cast operand ended
      · exact suffixed _ ended
    | _ => exact suffixed _ ended
termination_by levels => (levels, 3)

theorem sound_suffixed (levels : Nat) : SoundAt .suffixed (suffixed levels) := by
  unfold suffixed
  intro start ended
  refine .bind ((sound_primary levels start ended).weaken ?_)
  rintro operand middle ⟨phrase, derived, checked, ended⟩
  exact leads_furtherSuffixes levels ⟨phrase, .primary derived, checked, ended⟩
termination_by (levels, 2)

/-- What is on the left becomes the operand of whatever suffixes follow it. -/
theorem leads_furtherSuffixes {operand : Expression} (levels : Nat) {start middle : Stage}
    (read : YieldsPhrase .suffixed start operand middle) :
    Leads (furtherSuffixes operand levels) middle (YieldsPhrase .suffixed start) := by
  unfold furtherSuffixes
  refine .bind (.kind ?_)
  -- Every suffix takes a level, whatever it is.
  cases found : ahead middle.tokens with
  | leftBracket =>
    match levels with
    | 0 => exact .tooDeep
    | levels + 1 =>
      obtain ⟨phrase, derived, checked, ended⟩ := read
      refine .bind (.discard (leads_advance ended (by simp [found]) ?_))
      intro opening rest split ended
      rw [split] at found derived
      refine .bind ((sound_expression levels _ ended).weaken ?_)
      rintro index ⟨after, known⟩ ⟨inner, second, judged, ended⟩
      refine .bind (.check fun node final recorded => ?_)
      refine .bind (.discard (.expect ended (by simp) ?_))
      rintro closing rest rfl closes ended
      refine leads_furtherSuffixes levels ⟨.subscript phrase inner, ?_, ?_, ended⟩
      · exact .subscript derived found second closes
      · exact Checking.then_eq checked (Checking.then_eq judged recorded)
  | increment =>
    match levels with
    | 0 => exact .tooDeep
    | levels + 1 => exact leads_step .increment read found (leads_furtherSuffixes levels)
  | decrement =>
    match levels with
    | 0 => exact .tooDeep
    | levels + 1 => exact leads_step .decrement read found (leads_furtherSuffixes levels)
  | _ => exact .pure read
termination_by (levels, 0)

theorem sound_primary (levels : Nat) : SoundAt .primary (primary levels) := by
  unfold primary
  rintro ⟨tokens, checker⟩ ended
  -- A constant is one token, which is not the last.
  have constant {token : Token} {rest : List Token} {value : Expression}
      (constant : Constant token value) (ended : Ended rest) :
      YieldsPhrase .primary ⟨token :: rest, checker⟩ value ⟨rest, checker⟩ :=
    ⟨.literal value, .literal constant, rfl, ended⟩
  refine .bind (.kind ?_)
  cases found : ahead tokens with
  | leftParen =>
    refine .bind (.discard (leads_advance ended (by simp [found]) ?_))
    rintro opening rest rfl ended
    refine .bind ((sound_expression levels _ ended).weaken ?_)
    rintro value ⟨after, known⟩ ⟨phrase, derived, checked, ended⟩
    refine .bind (.discard (.expect ended (by simp) ?_))
    rintro closing rest rfl closes ended
    exact .pure ⟨phrase, .parenthesised found derived closes, checked, ended⟩
  | character =>
    refine .bind (leads_advance ended (by simp [found]) ?_)
    rintro token rest rfl ended
    exact .pure (constant (.character found) ended)
  | string =>
    refine .bind (leads_advance ended (by simp [found]) ?_)
    rintro token rest rfl ended
    exact .pure (constant (.string found) ended)
  | integer =>
    refine .bind (leads_wholeNumber ended ?_)
    rintro token value rest rfl spelled fits ended
    exact .pure (constant (.integer spelled fits) ended)
  | real =>
    refine .bind (leads_advance ended (by simp [found]) ?_)
    rintro token rest rfl ended
    exact .pure (constant (.real found) ended)
  | identifier =>
    refine .bind (leads_name ended ?_)
    rintro token rest rfl spelled ended
    refine .bind (.act (Checker.blind_resolve _) fun symbol known resolved => ?_)
    refine .bind (.kind ?_)
    split
    · next opens =>
      refine .bind (.discard (leads_advance ended (by simp [opens]) ?_))
      rintro opening rest rfl ended
      refine .bind ((leads_arguments (sound_expression levels) ended).weaken ?_)
      rintro arguments ⟨after, later⟩ ⟨phrases, listed, checked, ended⟩
      refine .bind (.act (Checker.blind_call _ _) fun call final called => ?_)
      refine .bind (.discard (.expect ended (by simp) ?_))
      rintro closing rest rfl closes ended
      refine .pure ⟨.call token.text phrases, ?_, ?_, ended⟩
      · rcases listed with ⟨rfl, rfl⟩ | passed
        · exact .callNothing spelled opens closes
        · exact .call spelled opens passed closes
      · exact Checking.then_eq resolved (Checking.then_eq checked called)
    · refine .bind (.get fun reader reached => .pure ?_)
      have same : reader.checker.unplaced = known := congrArg Stage.checker reached
      refine ⟨.name token.text, .name spelled, ?_, ended⟩
      refine Checking.then_eq resolved ?_
      rw [← same]
      rfl
  | _ => exact .unexpected
termination_by (levels, 1)

end

end Reading

end SmallC
