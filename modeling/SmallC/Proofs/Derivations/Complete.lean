import SmallC.Proofs.Derivations.Boundaries
import SmallC.Proofs.Derivations.Sound

/-! Expressions of the grammar are read, where enough levels are left and what follows them is no
part of them. Two levels for each token are enough: one for an expression, one for its prefixes. -/

namespace SmallC

namespace Reading

/-- What the grammar derives from so many tokens or less is read, and checked as it says. -/
def Complete {α β : Type} (action : Reading α) (grammar : List Token → β → List Token → Prop)
    (meaning : β → Checking α) (size : Nat) : Prop :=
  ∀ ⦃start thing rest⦄, grammar start thing rest → start.length ≤ size → 0 < rest.length →
    ∀ ⦃checker value final⦄, meaning thing checker = (value, final) →
      Reaches action ⟨start, checker⟩ value ⟨rest, final⟩

section Combinators

variable {α β : Type} {grammar : List Token → β → List Token → Prop} {meaning : β → Checking α}
  {size : Nat}

/-- Items that the test finds are read until it finds none. -/
theorem complete_many {test : TokenKind → Bool} {item : Reading α}
    (complete : Complete item grammar meaning size)
    (found : ∀ start thing rest, grammar start thing rest → test (ahead start) = true)
    (shorter : ∀ start thing rest, grammar start thing rest → rest.length < start.length) :
    Complete (many test item)
      (fun start things rest => Run grammar start things rest ∧ test (ahead rest) = false)
      (List.mapM' meaning) size := by
  -- A clock that has as many tokens as are left does not run out.
  have clocked {start rest : List Token} {things : List β} (run : Run grammar start things rest)
      (short : start.length ≤ size) (longer : 0 < rest.length) (stops : test (ahead rest) = false) :
      ∀ clock : List Token, start.length ≤ clock.length → ∀ {checker values final},
        things.mapM' meaning checker = (values, final) →
          Reaches (whileAt test item clock) ⟨start, checker⟩ values ⟨rest, final⟩ := by
    induction run with
    | nil =>
      intro clock enough checker values final checked
      cases checked
      cases clock <;>
      · refine .bind .kind ?_
        rw [stops]
        exact .pure _
    | @cons start middle rest first others head tail ih =>
      intro clock enough checker values final checked
      obtain ⟨value, known, begun, checked⟩ := Checking.bind_eq.mp checked
      obtain ⟨values, last, all, same⟩ := Checking.bind_eq.mp checked
      cases same
      have less := shorter _ _ _ head
      have inside := Run.shorter shorter tail
      obtain _ | ⟨token, clock⟩ := clock
      · simp only [List.length_nil] at enough
        omega
      · simp only [List.length_cons] at enough
        refine .bind .kind ?_
        rw [if_pos (found _ _ _ head)]
        refine .bind (complete head short (by omega) begun) (.bind ?_ (.pure _))
        exact ih (by omega) longer stops clock (by omega) all
  rintro start things rest ⟨run, stops⟩ short longer checker values final checked
  refine .get fun reader reached => ?_
  have same : reader.remaining = start := congrArg Stage.tokens reached
  rw [same]
  exact clocked run short longer stops start (Nat.le_refl _) checked

theorem complete_afterComma {item : Reading α} (complete : Complete item grammar meaning size)
    (shorter : ∀ start thing rest, grammar start thing rest → rest.length < start.length) :
    Complete (do discard advance; item) (AfterComma grammar) meaning (size + 1) := by
  rintro _ thing rest ⟨comma, middle, rfl, separated, derived⟩ short longer checker value final checked
  have less := shorter _ _ _ derived
  refine .bind (.discard (.advance (by omega))) ?_
  exact complete derived (Nat.le_of_succ_le_succ short) longer checked

theorem complete_commaSeparated {item : Reading α} (complete : Complete item grammar meaning size)
    (shorter : ∀ start thing rest, grammar start thing rest → rest.length < start.length) :
    Complete (commaSeparated item)
      (fun start things rest => Commas grammar start things rest ∧ ahead rest ≠ .comma)
      (List.mapM' meaning) size := by
  rintro start things rest ⟨listed, stops⟩ short longer checker values final checked
  obtain ⟨first, others, middle, rfl, head, run⟩ := (commas_iff _).mp listed
  obtain ⟨value, known, begun, checked⟩ := Checking.bind_eq.mp checked
  obtain ⟨values, last, all, same⟩ := Checking.bind_eq.mp checked
  cases same
  have further (start : List Token) (thing : β) (rest : List Token) :
      AfterComma grammar start thing rest → rest.length < start.length := AfterComma.shorter shorter
  -- What is left after the first item is short enough for the run of the others.
  have first := shorter _ _ _ head
  have inside := Run.shorter further run
  refine .bind (complete head short (by omega) begun) (.bind ?_ (.pure _))
  refine complete_many (complete_afterComma complete shorter) ?_ further ⟨run, ?_⟩ (by omega) longer all
  · rintro _ _ _ ⟨comma, middle, rfl, separated, _⟩
    exact decide_eq_true separated
  · simpa using stops

end Combinators

/-! Names, types and numbers. -/

theorem reaches_specifier {token : Token} {specifier : Specifier} {rest : List Token}
    {checker : Checker} (specified : token.kind = .specifier specifier) (longer : 0 < rest.length) :
    Reaches Reading.specifier ⟨token :: rest, checker⟩ specifier ⟨rest, checker⟩ := by
  refine .bind .kind ?_
  rw [ahead_cons, specified]
  exact .bind (.discard (.advance longer)) (.pure _)

theorem reaches_name {token : Token} {rest : List Token} {checker : Checker}
    (spelled : token.kind = .identifier) (longer : 0 < rest.length) :
    Reaches name ⟨token :: rest, checker⟩ token.text ⟨rest, checker⟩ :=
  .bind (.expect spelled longer) (.pure _)

theorem reaches_wholeNumber {token : Token} {value : Nat} {rest : List Token} {checker : Checker}
    (spelled : token.kind = .integer) (fits : decimalBelow? UInt32.size token.text = some value)
    (longer : 0 < rest.length) :
    Reaches wholeNumber ⟨token :: rest, checker⟩ value ⟨rest, checker⟩ := by
  refine .bind (.expect spelled longer) ?_
  rw [fits]
  exact .pure _

theorem reaches_stars {start rest : List Token} {count : Nat} {checker : Checker}
    (counted : Stars start count rest) (stops : ahead rest ≠ .star) (longer : 0 < rest.length) :
    Reaches stars ⟨start, checker⟩ count ⟨rest, checker⟩ := by
  obtain ⟨found, rfl, run⟩ := stars_iff.mp counted
  -- A star means nothing to the checker, so a run of them leaves it as it is.
  have star : Complete advance Starred Pure.pure start.length := by
    rintro _ token rest ⟨rfl, starred⟩ short longer checker value final checked
    obtain ⟨rfl, rfl⟩ := Checking.pure_eq.mp checked
    exact .advance longer
  have stays : found.mapM' (Pure.pure : Token → Checking Token) checker = (found, checker) := by
    clear run counted
    induction found with
    | nil => rfl
    | cons token found ih => exact Checking.then_eq rfl (Checking.then_eq ih rfl)
  refine .bind (complete_many star ?_ ?_ ⟨run, ?_⟩ (Nat.le_refl _) longer stays) (.pure _)
  · rintro _ token rest ⟨rfl, starred⟩
    exact decide_eq_true starred
  · rintro _ token rest ⟨rfl, _⟩
    exact Nat.lt_succ_self _
  · simpa using stops

theorem reaches_typeName {start rest : List Token} {type : Ty} {checker : Checker}
    (named : TypeName start type rest) (longer : 0 < rest.length) :
    Reaches typeName ⟨start, checker⟩ type ⟨rest, checker⟩ := by
  obtain ⟨opens, specified, stars, closes⟩ := named
  have inside := stars.shorter
  simp only [List.length_cons] at inside
  refine .bind (.discard (.expect opens (by simp))) ?_
  refine .bind (reaches_specifier specified (by omega)) ?_
  refine .bind (reaches_stars stars (by simp [closes]) (by simp)) ?_
  exact .bind (.discard (.expect closes longer)) (.pure _)

theorem reaches_startsTypeName {tokens : List Token} {checker : Checker} :
    Reaches startsTypeName ⟨tokens, checker⟩ (opensType tokens) ⟨tokens, checker⟩ :=
  fun reader reached => ⟨reader, startsTypeName_of_stage reached, reached⟩

theorem Reaches.check {α : Type} {verdict : Verdict α} {tokens : List Token} {checker final : Checker}
    {value : α} (recorded : Checker.record verdict checker = (value, final)) :
    Reaches (Reading.check verdict) ⟨tokens, checker⟩ value ⟨tokens, final⟩ :=
  .act (Checker.blind_record verdict) recorded

/-! Expressions. -/

/-- Phrases of the rung are read from so many tokens or less. -/
abbrev CompleteAt (rung : Rung) (action : Reading Expression) (size : Nat) : Prop :=
  Complete action (Phrase.Whole rung) Phrase.elaborate size

/-- Expressions of fewer tokens are read with two levels for each token. -/
def Below (size : Nat) : Prop :=
  ∀ smaller < size, ∀ levels, 2 * smaller ≤ levels →
    CompleteAt .expression (expression levels) smaller

theorem Below.smaller {size less : Nat} (below : Below size) (smaller : less ≤ size) : Below less :=
  fun _ least => below _ (by omega)

section Primary

variable {levels : Nat} {rest : List Token} {checker final : Checker} {value : Expression}

theorem reaches_literal {token : Token} {literal : Expression} (constant : Constant token literal)
    (longer : 0 < rest.length) :
    Reaches (primary levels) ⟨token :: rest, checker⟩ literal ⟨rest, checker⟩ := by
  unfold primary
  refine .bind .kind ?_
  -- The kind of the token tells which constant is read.
  cases constant with
  | character spelled =>
    rw [ahead_cons, spelled]
    exact .bind (.advance longer) (.pure _)
  | string spelled =>
    rw [ahead_cons, spelled]
    exact .bind (.advance longer) (.pure _)
  | integer spelled fits =>
    rw [ahead_cons, spelled]
    exact .bind (reaches_wholeNumber spelled fits longer) (.pure _)
  | real spelled =>
    rw [ahead_cons, spelled]
    exact .bind (.advance longer) (.pure _)

/-- A name that no parenthesis follows stands for its symbol. -/
theorem reaches_identifier {token : Token} (spelled : token.kind = .identifier)
    (plain : ahead rest ≠ .leftParen) (longer : 0 < rest.length)
    (checked : (Phrase.name token.text).elaborate checker = (value, final)) :
    Reaches (primary levels) ⟨token :: rest, checker⟩ value ⟨rest, final⟩ := by
  obtain ⟨symbol, known, resolved, checked⟩ := Checking.bind_eq.mp checked
  cases checked
  unfold primary
  refine .bind .kind ?_
  rw [ahead_cons, spelled]
  refine .bind (reaches_name spelled longer) ?_
  refine .bind (.act (Checker.blind_resolve _) resolved) (.bind .kind ?_)
  rw [if_neg plain]
  -- The node is made from the table that the resolution has left.
  refine .get fun reader reached => ?_
  have same : reader.checker.unplaced = final := congrArg Stage.checker reached
  rw [← same]
  exact .pure _

/-- A call is read where its arguments are, up to the closing parenthesis. -/
theorem reaches_call {token opening closing : Token} {start : List Token} {symbol : SymbolId}
    {arguments : List Expression} {known later : Checker} (spelled : token.kind = .identifier)
    (opens : opening.kind = .leftParen) (inside : 0 < start.length)
    (resolved : Checker.resolve token.text checker = (symbol, known))
    (listed : Reaches (callArguments (expression levels)) ⟨start, known⟩ arguments
      ⟨closing :: rest, later⟩)
    (called : Checker.call symbol arguments later = (value, final))
    (closes : closing.kind = .rightParen) (longer : 0 < rest.length) :
    Reaches (primary levels) ⟨token :: opening :: start, checker⟩ value ⟨rest, final⟩ := by
  unfold primary
  refine .bind .kind ?_
  rw [ahead_cons, spelled]
  -- The name is resolved before the parenthesis is looked at.
  refine .bind (reaches_name spelled (by simp)) ?_
  refine .bind (.act (Checker.blind_resolve _) resolved) (.bind .kind ?_)
  rw [ahead_cons, if_pos opens]
  refine .bind (.discard (.advance inside)) (.bind listed ?_)
  refine .bind (.act (Checker.blind_call _ _) called) ?_
  exact .bind (.discard (.expect closes longer)) (.pure _)

theorem reaches_noArguments {closing : Token} (closes : closing.kind = .rightParen) :
    Reaches (callArguments (expression levels)) ⟨closing :: rest, checker⟩ []
      ⟨closing :: rest, checker⟩ := by
  refine .bind .kind ?_
  rw [ahead_cons, if_pos closes]
  exact .pure _

theorem reaches_arguments {closing : Token} {start : List Token} {phrases : List Phrase}
    {arguments : List Expression} (each : CompleteAt .expression (expression levels) start.length)
    (passed : Commas (Phrase.Derives .expression) start phrases (closing :: rest))
    (closes : closing.kind = .rightParen)
    (judged : Phrase.elaborateAll phrases checker = (arguments, final)) :
    Reaches (callArguments (expression levels)) ⟨start, checker⟩ arguments
      ⟨closing :: rest, final⟩ := by
  -- No expression starts with the closing parenthesis.
  have plain : ahead start ≠ .rightParen := by
    have opens := Phrase.opens_commas passed
    intro closed
    rw [closed] at opens
    cases opens
  have whole : Commas (Phrase.Whole .expression) start phrases (closing :: rest) :=
    Commas.follow (Rung.expression.goesOn · = false) rfl passed
      (not_goesOn_expression (by simp [closes]))
  refine .bind .kind ?_
  rw [if_neg plain]
  rw [elaborateAll_eq_mapM] at judged
  exact complete_commaSeparated each (fun _ _ _ whole => whole.1.shorter)
    ⟨whole, by simp [closes]⟩ (Nat.le_refl _) (by simp) judged

end Primary

theorem complete_primary {size levels : Nat} (below : Below size) (enough : 2 * size ≤ levels + 2) :
    CompleteAt .primary (primary levels) size := by
  rintro start phrase rest ⟨derived, ends⟩ short longer checker value final checked
  -- Only what stands in parentheses, or is passed, takes a level.
  cases derived with
  | @parenthesised opening closing start _ _ opens inner closes =>
    have inside := inner.shorter
    simp only [List.length_cons] at short inside
    have whole : Phrase.Whole .expression start phrase (closing :: rest) :=
      ⟨inner, not_goesOn_expression (by simp [closes])⟩
    unfold primary
    refine .bind .kind ?_
    rw [ahead_cons, opens]
    refine .bind (.discard (.advance (by omega))) ?_
    refine .bind (below start.length (by omega) levels (by omega) whole (Nat.le_refl _) (by simp)
      checked) ?_
    exact .bind (.discard (.expect closes longer)) (.pure _)
  | literal constant =>
    cases checked
    exact reaches_literal constant longer
  | name spelled => exact reaches_identifier spelled (of_decide_eq_false ends) longer checked
  | callNothing spelled opens closes =>
    obtain ⟨symbol, known, resolved, called⟩ := Checking.bind_eq.mp checked
    exact reaches_call spelled opens (by simp) resolved (reaches_noArguments closes) called closes
      longer
  | call spelled opens passed closes =>
    have inside := Phrase.Derives.shorter_commas passed
    simp only [List.length_cons] at short inside
    obtain ⟨symbol, known, resolved, checked⟩ := Checking.bind_eq.mp checked
    obtain ⟨arguments, later, judged, called⟩ := Checking.bind_eq.mp checked
    have listed := reaches_arguments (below _ (by omega) levels (by omega)) passed closes judged
    exact reaches_call spelled opens (by omega) resolved listed called closes longer

/-- Suffixes are read one by one, what they follow having been checked before. -/
theorem reaches_suffixes {size : Nat} (below : Below size) {operand phrase : Phrase}
    {middle rest : List Token} (suffixes : Phrase.Suffixes operand middle phrase rest)
    (longer : 0 < rest.length) (ends : Rung.suffixed.goesOn (ahead rest) = false)
    {start known final : Checker} {value : Expression}
    (concluded : phrase.elaborate start = (value, final)) :
    ∀ levels {left}, middle.length < size → 2 * middle.length ≤ levels →
      operand.elaborate start = (left, known) →
        Reaches (furtherSuffixes left levels) ⟨middle, known⟩ value ⟨rest, final⟩ := by
  -- The induction follows the suffixes; the operand they stand behind changes with each of them.
  induction suffixes generalizing known with
  | done =>
    intro levels left short enough checked
    obtain ⟨rfl, rfl⟩ := Prod.mk.inj (checked.symm.trans concluded)
    unfold furtherSuffixes
    refine .bind .kind ?_
    cases found : ahead _ with
    | leftBracket | increment | decrement =>
      rw [found] at ends
      cases ends
    | _ => exact .pure _
  | @subscript array index _ opening closing middle further _ opens second closes others ih =>
    intro levels left short enough checked
    have inside := second.shorter
    simp only [List.length_cons] at short enough inside
    obtain _ | levels := levels
    · omega
    have remains := others.shorter
    rcases judged : index.elaborate known with ⟨value, later⟩
    rcases recorded : Checker.record (checkSubscript left value) later with ⟨node, last⟩
    have whole : Phrase.Whole .expression middle index (closing :: further) :=
      ⟨second, not_goesOn_expression (by simp [closes])⟩
    unfold furtherSuffixes
    refine .bind .kind ?_
    rw [ahead_cons, opens]
    refine .bind (.discard (.advance (by omega))) ?_
    refine .bind (below middle.length (by omega) levels (by omega) whole (Nat.le_refl _) (by simp)
      judged) ?_
    refine .bind (.check recorded) (.bind (.discard (.expect closes (by omega))) ?_)
    exact ih longer ends concluded levels (by omega) (by omega)
      (Checking.then_eq checked (Checking.then_eq judged recorded))
  | @step op operand _ sign further _ spelled others ih =>
    intro levels left short enough checked
    simp only [List.length_cons] at short enough
    obtain _ | levels := levels
    · omega
    have remains := others.shorter
    rcases recorded : Checker.record (checkStep op left) known with ⟨node, last⟩
    have next := ih longer ends concluded levels (by omega) (by omega)
      (Checking.then_eq checked recorded)
    unfold furtherSuffixes
    refine .bind .kind ?_
    rw [ahead_cons, spelled]
    cases op <;> exact .bind (.check recorded) (.bind (.discard (.advance (by omega))) next)

theorem complete_suffixed {size levels : Nat} (below : Below size) (enough : 2 * size ≤ levels + 2) :
    CompleteAt .suffixed (suffixed levels) size := by
  rintro start phrase rest ⟨derived, ends⟩ short longer checker value final checked
  obtain ⟨operand, middle, inner, suffixes⟩ := derived.suffixes
  have taken := inner.shorter
  have remains := suffixes.shorter
  -- What the suffixes start from has been checked already.
  rcases judged : operand.elaborate checker with ⟨left, known⟩
  unfold suffixed
  refine .bind (complete_primary below enough ⟨inner, suffixes.ends ends⟩ short (by omega) judged) ?_
  exact reaches_suffixes below suffixes longer ends checked levels (by omega) (by omega) judged

/-- An operator that is one token is read with its operand. -/
theorem reaches_unary {sign : UnarySign} {operator : Token} {start rest : List Token}
    {operand : Reading Expression} {checker known final : Checker} {left value : Expression}
    (read : Reaches operand ⟨start, checker⟩ left ⟨rest, known⟩) (longer : 0 < start.length)
    (recorded : Checker.record (sign.check left) known = (value, final)) :
    Reaches (do discard advance; check (sign.check (← operand))) ⟨operator :: start, checker⟩ value
      ⟨rest, final⟩ :=
  .bind (.discard (.advance longer)) (.bind read (.check recorded))

theorem complete_prefixed {size levels : Nat} (below : Below size) (enough : 2 * size ≤ levels + 1) :
    CompleteAt .prefixed (prefixed levels) size := by
  induction levels generalizing size with
  | zero =>
    -- Without a level there is no token either.
    rintro start phrase rest ⟨derived, ends⟩ short
    have taken := derived.shorter
    omega
  | succ levels ih =>
    rintro start phrase rest ⟨derived, ends⟩ short longer checker value final checked
    have taken := derived.shorter
    have read (less : Nat) (smaller : less < size) : CompleteAt .prefixed (prefixed levels) less :=
      ih (below.smaller (Nat.le_of_lt smaller)) (by omega)
    unfold prefixed
    refine .bind reaches_startsTypeName (.bind .kind ?_)
    cases derived with
    | @unary sign operator start _ operand spelled sized inner =>
      have inside := inner.shorter
      simp only [List.length_cons] at short
      obtain ⟨left, known, judged, recorded⟩ := Checking.bind_eq.mp checked
      have operand := read start.length (by omega) ⟨inner, ends⟩ (Nat.le_refl _) longer judged
      rw [ahead_cons]
      cases sign with
      | not | negate | dereference | address =>
        simp only [UnarySign.kind?, Option.some.injEq] at spelled
        rw [← spelled]
        exact reaches_unary operand (by omega) recorded
      | sizeof =>
        simp only [UnarySign.kind?, Option.some.injEq] at spelled
        rw [← spelled]
        refine .bind (.discard (.advance (by omega))) (.bind reaches_startsTypeName ?_)
        rw [sized spelled.symm]
        exact .bind operand (.check recorded)
      | cast => cases spelled
    | @sizeofType word start _ type spelled named =>
      have inside := named.shorter
      cases checked
      rw [ahead_cons, spelled]
      refine .bind (.discard (.advance (by omega))) (.bind reaches_startsTypeName ?_)
      rw [if_pos named.opensType.2]
      exact .bind (reaches_typeName named longer) (.pure _)
    | @cast _ middle _ type operand named inner =>
      have inside := inner.shorter
      have typed := named.shorter
      obtain ⟨left, known, judged, recorded⟩ := Checking.bind_eq.mp checked
      have operand := read middle.length (by omega) ⟨inner, ends⟩ (Nat.le_refl _) longer judged
      rw [named.opensType.1, if_pos named.opensType.2]
      exact .bind (reaches_typeName named (by omega)) (.bind operand (.check recorded))
    | suffixed inner =>
      have opens := inner.opens
      have untyped : opensType start = false := by
        obtain ⟨_, _, operand, _⟩ := inner.suffixes
        exact operand.opensType
      have operand : Reaches (suffixed levels) ⟨start, checker⟩ value ⟨rest, final⟩ :=
        complete_suffixed below (by omega) ⟨inner, ends⟩ short longer checked
      cases found : ahead start with
      | bang | minus | star | ampersand | sizeofWord =>
        rw [found] at opens
        cases opens
      | leftParen =>
        dsimp only
        rw [if_neg (by simp [untyped])]
        exact operand
      | _ => exact operand

/-- Operators of one precedence are read one by one, what stands before them having been checked. -/
theorem reaches_chain {size : Nat} {tier : Tier} {tighter : List Tier} (apart : tier ∉ tighter)
    (read : ∀ less < size, ∀ levels, 2 * less ≤ levels + 1 →
      CompleteAt (.operation tighter) (operation tighter levels) less)
    {left phrase : Phrase} {middle rest : List Token}
    (chain : Phrase.Chain tier tighter left middle phrase rest) (longer : 0 < rest.length)
    (ends : (Rung.operation (tier :: tighter)).goesOn (ahead rest) = false)
    {start known final : Checker} {value : Expression}
    (concluded : phrase.elaborate start = (value, final)) :
    ∀ levels {before}, middle.length < size → 2 * middle.length ≤ levels →
      left.elaborate start = (before, known) →
        Reaches (furtherOperands tier tighter before levels) ⟨middle, known⟩ value ⟨rest, final⟩ := by
  -- The induction follows the operators; what is on their left grows with each of them.
  induction chain generalizing known with
  | done =>
    intro levels before short enough checked
    obtain ⟨rfl, rfl⟩ := Prod.mk.inj (checked.symm.trans concluded)
    unfold furtherOperands
    refine .bind .kind ?_
    rw [Rung.rule_of_not_goesOn ends]
    exact .pure _
  | @more left right _ operator middle further _ sign spelled placed second others ih =>
    intro levels before short enough checked
    have inside := second.shorter
    have remains := others.shorter
    simp only [List.length_cons] at short enough
    obtain _ | levels := levels
    · omega
    rcases judged : right.elaborate known with ⟨operand, later⟩
    rcases recorded : Checker.record (sign.check before operand) later with ⟨node, last⟩
    have whole : Phrase.Whole (.operation tighter) middle right further :=
      ⟨second, others.ends apart ends⟩
    -- The sign is of this precedence, so the reader takes it for one.
    have ruled : tier.rule? operator.kind = some sign.check :=
      BinarySign.rule_eq_some.mpr ⟨sign, spelled.symm, placed, rfl⟩
    unfold furtherOperands
    refine .bind .kind ?_
    rw [ahead_cons, ruled]
    refine .bind (.discard (.advance (by omega))) ?_
    refine .bind (read middle.length (by omega) levels (by omega) whole (Nat.le_refl _) (by omega)
      judged) (.bind (.check recorded) ?_)
    exact ih longer ends concluded levels (by omega) (by omega)
      (Checking.then_eq checked (Checking.then_eq judged recorded))

theorem complete_operation {size levels : Nat} {tiers : List Tier} (below : Below size)
    (distinct : tiers.Nodup) (enough : 2 * size ≤ levels + 1) :
    CompleteAt (.operation tiers) (operation tiers levels) size := by
  -- Without a tighter precedence an operand is left; otherwise the first operand is one of the
  -- tighter ones, and a chain follows.
  induction tiers generalizing size levels with
  | nil =>
    rintro start phrase rest ⟨derived, ends⟩
    cases derived with
    | operand inner =>
      unfold operation
      refine complete_prefixed below enough ⟨inner, ?_⟩
      simpa [Rung.goesOn] using ends
  | cons tier tighter ih =>
    obtain ⟨apart, distinct⟩ := List.nodup_cons.mp distinct
    rintro start phrase rest ⟨derived, ends⟩ short longer checker value final checked
    obtain ⟨left, middle, inner, chain⟩ := derived.chain
    have taken := inner.shorter
    have remains := chain.shorter
    rcases judged : left.elaborate checker with ⟨operand, known⟩
    have whole : Phrase.Whole (.operation tighter) start left middle :=
      ⟨inner, chain.ends apart ends⟩
    unfold operation
    refine .bind (ih below distinct enough whole short (by omega) judged) ?_
    refine reaches_chain apart ?_ chain longer ends checked levels (by omega) (by omega) judged
    exact fun less smaller levels enough => ih (below.smaller (by omega)) distinct enough

/-- Every expression is read. -/
theorem complete_expression (size : Nat) {levels : Nat} (enough : 2 * size ≤ levels) :
    CompleteAt .expression (expression levels) size := by
  induction size using Nat.strongRecOn generalizing levels with
  | ind size ih =>
    -- Without a level only the empty text would be short enough.
    obtain _ | levels := levels
    · rintro start phrase rest ⟨derived, ends⟩ short
      have taken := derived.shorter
      omega
    unfold expression
    refine complete_operation (fun smaller less levels enough => ih smaller less enough) ?_ enough
    decide

end Reading

end SmallC
