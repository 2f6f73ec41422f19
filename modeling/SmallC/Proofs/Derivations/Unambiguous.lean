import SmallC.Proofs.Derivations.Boundaries

/-! The grammar is unambiguous: no tokens have two derivations where what follows is no part of them. -/

namespace SmallC

/-- Of so many tokens or less, the grammar takes the same ones in one way only. -/
def Unambiguous {α : Type} (grammar : List Token → α → List Token → Prop) (size : Nat) : Prop :=
  ∀ ⦃start thing rest other final⦄, start.length ≤ size → grammar start thing rest →
    grammar start other final → thing = other ∧ rest = final

section Combinators

variable {α : Type} {item : List Token → α → List Token → Prop} {size : Nat}

/-- Nothing of the grammar starts at the tokens. -/
def Stops (item : List Token → α → List Token → Prop) (start : List Token) : Prop :=
  ∀ thing rest, ¬ item start thing rest

/-- Items follow each other in one way only, up to where none starts. -/
theorem unambiguous_run (unique : Unambiguous item size)
    (shorter : ∀ start thing rest, item start thing rest → rest.length < start.length) :
    Unambiguous (fun start things rest => Run item start things rest ∧ Stops item rest) size := by
  rintro start things rest others final short ⟨run, stops⟩ ⟨other, halts⟩
  -- The two runs are taken apart together, since one cannot stop where the other goes on.
  induction run generalizing others with
  | nil =>
    cases other with
    | nil => exact ⟨rfl, rfl⟩
    | cons head _ => exact (stops _ _ head).elim
  | cons head tail ih =>
    cases other with
    | nil => exact (halts _ _ head).elim
    | cons second further =>
      obtain ⟨rfl, rfl⟩ := unique short head second
      have less := shorter _ _ _ head
      obtain ⟨rfl, rfl⟩ := ih (by omega) stops further
      exact ⟨rfl, rfl⟩

theorem unambiguous_afterComma (unique : Unambiguous item size) :
    Unambiguous (AfterComma item) (size + 1) := by
  rintro _ thing rest other final short ⟨comma, middle, rfl, _, derived⟩ ⟨_, _, same, _, second⟩
  obtain ⟨rfl, rfl⟩ := List.cons.inj same
  exact unique (Nat.le_of_succ_le_succ short) derived second

theorem stops_afterComma {start : List Token} (plain : ahead start ≠ .comma) :
    Stops (AfterComma item) start := by
  rintro thing rest ⟨comma, middle, rfl, separated, _⟩
  exact plain separated

/-- Items between commas are taken in one way only, up to where no comma follows. -/
theorem unambiguous_commas (unique : Unambiguous item size)
    (shorter : ∀ start thing rest, item start thing rest → rest.length < start.length) :
    Unambiguous (fun start things rest => Commas item start things rest ∧ ahead rest ≠ .comma)
      size := by
  rintro start things rest others final short ⟨listed, stops⟩ ⟨other, halts⟩
  obtain ⟨first, further, middle, rfl, head, run⟩ := (commas_iff _).mp listed
  obtain ⟨second, more, _, rfl, same, tail⟩ := (commas_iff _).mp other
  -- The first items agree, and then the further ones start at one place.
  obtain ⟨rfl, rfl⟩ := unique short head same
  have less := shorter _ _ _ head
  obtain ⟨rfl, rfl⟩ := unambiguous_run (unambiguous_afterComma unique)
    (fun _ _ _ => AfterComma.shorter shorter) (by omega) ⟨run, stops_afterComma stops⟩
    ⟨tail, stops_afterComma halts⟩
  exact ⟨rfl, rfl⟩

end Combinators

/-! Stars and types. -/

theorem stars_unique {start rest final : List Token} {count other : Nat}
    (first : Stars start count rest) (second : Stars start other final) (stops : ahead rest ≠ .star)
    (halts : ahead final ≠ .star) : count = other ∧ rest = final := by
  -- Both runs go on while there is a star, and both stop where there is none.
  induction first generalizing other with
  | none =>
    cases second with
    | none => exact ⟨rfl, rfl⟩
    | more starred _ => exact (stops starred).elim
  | more starred _ ih =>
    cases second with
    | none => exact (halts starred).elim
    | more _ others =>
      obtain ⟨rfl, rfl⟩ := ih others stops
      exact ⟨rfl, rfl⟩

theorem specifier_unique {token : Token} {first second : Specifier}
    (one : token.kind = .specifier first) (other : token.kind = .specifier second) : first = second :=
  TokenKind.specifier.inj (one.symm.trans other)

theorem TypeName.unique {start rest final : List Token} {type other : Ty}
    (first : TypeName start type rest) (second : TypeName start other final) :
    type = other ∧ rest = final := by
  cases first with
  | scalar opens specified stars closes =>
    cases second with
    | scalar _ named counted ends =>
      obtain rfl := specifier_unique specified named
      obtain ⟨rfl, same⟩ := stars_unique stars counted (by simp [closes]) (by simp [ends])
      exact ⟨rfl, (List.cons.inj same).2⟩

theorem Constant.unique {token : Token} {first second : Expression} (one : Constant token first)
    (other : Constant token second) : first = second := by
  cases one <;> cases other <;> simp_all

namespace Phrase

/-- Shorter expressions are taken in one way only. -/
def UniqueBelow (size : Nat) : Prop :=
  ∀ less < size, Unambiguous (Whole .expression) less

theorem unambiguous_primary {size : Nat} (below : UniqueBelow size) :
    Unambiguous (Whole .primary) size := by
  rintro start phrase rest other final short ⟨first, ends⟩ ⟨second, halts⟩
  -- The first token tells the forms apart, and behind a name the parenthesis does.
  cases first with
  | @parenthesised opening closing start _ _ opens inner closes =>
    cases second with
    | parenthesised _ outer shuts =>
      have one : Rung.expression.goesOn closing.kind = false := not_goesOn_expression (by simp [closes])
      obtain ⟨rfl, same⟩ := below start.length (Nat.lt_of_succ_le short) (Nat.le_refl _)
        ⟨inner, one⟩ ⟨outer, not_goesOn_expression (by simp [shuts])⟩
      exact ⟨rfl, (List.cons.inj same).2⟩
    | literal constant => cases constant <;> simp_all
    | name spelled | callNothing spelled | call spelled => simp_all
  | literal constant =>
    cases second with
    | literal same =>
      obtain rfl := constant.unique same
      exact ⟨rfl, rfl⟩
    | parenthesised opens | name opens | callNothing opens | call opens =>
      cases constant <;> simp_all
  | name spelled =>
    cases second with
    | name => exact ⟨rfl, rfl⟩
    | literal constant => cases constant <;> simp_all
    | parenthesised opens => simp_all
    | callNothing _ opens | call _ opens => simp [Rung.goesOn, opens] at ends
  | callNothing spelled opens closes =>
    cases second with
    | callNothing => exact ⟨rfl, rfl⟩
    | literal constant => cases constant <;> simp_all
    | parenthesised opens => simp_all
    | name => simp [Rung.goesOn, opens] at halts
    | call _ _ passed =>
      have opens := opens_commas passed
      rw [ahead_cons, closes] at opens
      cases opens
  | @call token opening closing start _ phrases spelled opens passed closes =>
    cases second with
    | literal constant => cases constant <;> simp_all
    | parenthesised opens => simp_all
    | name => simp [Rung.goesOn, opens] at halts
    | callNothing _ _ shuts =>
      have opens := opens_commas passed
      rw [ahead_cons, shuts] at opens
      cases opens
    | call _ _ given shuts =>
      simp only [List.length_cons] at short
      have one := Commas.follow (Rung.expression.goesOn · = false) rfl passed
        (not_goesOn_expression (by simp [closes]))
      have two := Commas.follow (Rung.expression.goesOn · = false) rfl given
        (not_goesOn_expression (by simp [shuts]))
      obtain ⟨rfl, same⟩ := unambiguous_commas (below start.length (by omega))
        (fun _ _ _ whole => whole.1.shorter) (Nat.le_refl _) ⟨one, by simp [closes]⟩
        ⟨two, by simp [shuts]⟩
      exact ⟨rfl, (List.cons.inj same).2⟩

theorem suffixes_unique {size : Nat} (below : UniqueBelow size) {operand phrase : Phrase}
    {middle rest : List Token} (first : Suffixes operand middle phrase rest)
    (short : middle.length ≤ size) (ends : Rung.suffixed.goesOn (ahead rest) = false)
    {other : Phrase} {final : List Token} (second : Suffixes operand middle other final)
    (halts : Rung.suffixed.goesOn (ahead final) = false) : phrase = other ∧ rest = final := by
  -- A suffix is told by its first token, and what follows the last one is none.
  induction first with
  | done =>
    cases second with
    | done => exact ⟨rfl, rfl⟩
    | subscript opens => simp [Rung.goesOn, opens] at ends
    | @step op _ _ _ _ _ spelled => cases op <;> simp [Rung.goesOn, spelled, StepOp.kind] at ends
  | @subscript array index _ opening closing middle further _ opens inner closes others ih =>
    cases second with
    | done => simp [Rung.goesOn, opens] at halts
    | @step op _ _ _ _ _ spelled => cases op <;> simp_all [StepOp.kind]
    | subscript _ outer shuts others =>
      have less := inner.shorter
      simp only [List.length_cons] at short less
      have one : Rung.expression.goesOn closing.kind = false := not_goesOn_expression (by simp [closes])
      obtain ⟨rfl, same⟩ := below middle.length (by omega) (Nat.le_refl _) ⟨inner, one⟩
        ⟨outer, not_goesOn_expression (by simp [shuts])⟩
      obtain ⟨rfl, rfl⟩ := List.cons.inj same
      exact ih (by omega) ends others
  | @step op operand _ sign further _ spelled others ih =>
    cases second with
    | done => cases op <;> simp [Rung.goesOn, spelled, StepOp.kind] at halts
    | subscript opens => cases op <;> simp_all [StepOp.kind]
    | @step other _ _ _ _ _ named others =>
      simp only [List.length_cons] at short
      obtain rfl : op = other := by
        cases op <;> cases other <;> simp_all [StepOp.kind]
      exact ih (by omega) ends others

theorem unambiguous_suffixed {size : Nat} (below : UniqueBelow size) :
    Unambiguous (Whole .suffixed) size := by
  rintro start phrase rest other final short ⟨first, ends⟩ ⟨second, halts⟩
  obtain ⟨operand, middle, inner, others⟩ := first.suffixes
  obtain ⟨another, between, outer, further⟩ := second.suffixes
  obtain ⟨rfl, rfl⟩ := unambiguous_primary below short ⟨inner, others.ends ends⟩
    ⟨outer, further.ends halts⟩
  have less := inner.shorter
  exact suffixes_unique below others (by omega) ends further halts

theorem kind?_unique {first second : UnarySign} {kind : TokenKind} (one : first.kind? = some kind)
    (other : second.kind? = some kind) : first = second := by
  have same := one.trans other.symm
  clear other
  cases first <;> cases second <;> simp_all [UnarySign.kind?]

/-- No sign of an operator before its operand starts an operand without one. -/
theorem not_opensOperand_of_kind? {sign : UnarySign} {kind : TokenKind}
    (spelled : sign.kind? = some kind) : kind.opensOperand = false := by
  cases sign <;> simp only [UnarySign.kind?, Option.some.injEq, reduceCtorEq] at spelled
  all_goals
    rw [← spelled]
    rfl

/-! The first tokens tell the forms of a prefixed operand apart. -/

theorem unary_not_cast {sign : UnarySign} {operator : Token} {start rest : List Token} {type : Ty}
    (spelled : sign.kind? = some operator.kind) (named : TypeName (operator :: start) type rest) :
    False := by
  have plain := not_opensOperand_of_kind? spelled
  have opens : operator.kind = .leftParen := named.opensType.1
  rw [opens] at plain
  cases plain

theorem unary_not_suffixed {sign : UnarySign} {operator : Token} {start rest : List Token}
    {phrase : Phrase} (spelled : sign.kind? = some operator.kind)
    (inner : Derives .suffixed (operator :: start) phrase rest) : False := by
  have opens := inner.opens
  simp [Rung.opens, not_opensOperand_of_kind? spelled] at opens

theorem unary_not_sizeofType {word : Token} {start rest : List Token} {type : Ty}
    (sized : word.kind = .sizeofWord → opensType start = false) (spelled : word.kind = .sizeofWord)
    (named : TypeName start type rest) : False := by
  have typed := named.opensType.2
  rw [sized spelled] at typed
  cases typed

theorem cast_not_suffixed {start rest final : List Token} {type : Ty} {phrase : Phrase}
    (named : TypeName start type rest) (inner : Derives .suffixed start phrase final) : False := by
  obtain ⟨_, _, operand, _⟩ := inner.suffixes
  have typed := named.opensType.2
  rw [operand.opensType] at typed
  cases typed

theorem unambiguous_prefixed {size : Nat} (below : UniqueBelow size) :
    Unambiguous (Whole .prefixed) size := by
  induction size with
  | zero =>
    rintro start phrase rest other final short ⟨first, ends⟩
    have taken := first.shorter
    omega
  | succ size ih =>
    have shorter := ih fun less smaller => below less (by omega)
    -- The word for sizes is spelled as an operator too.
    have sizeof {word : Token} (spelled : word.kind = .sizeofWord) :
        UnarySign.sizeof.kind? = some word.kind := congrArg some spelled.symm
    rintro start phrase rest other final short ⟨first, ends⟩ ⟨second, halts⟩
    cases first with
    | unary spelled sized inner =>
      cases second with
      | unary named _ outer =>
        obtain rfl := kind?_unique spelled named
        obtain ⟨rfl, rfl⟩ := shorter (Nat.le_of_succ_le_succ short) ⟨inner, ends⟩ ⟨outer, halts⟩
        exact ⟨rfl, rfl⟩
      | sizeofType word typed => exact (unary_not_sizeofType sized word typed).elim
      | cast typed => exact (unary_not_cast spelled typed).elim
      | suffixed outer => exact (unary_not_suffixed spelled outer).elim
    | sizeofType word named =>
      cases second with
      | unary _ sized _ => exact (unary_not_sizeofType sized word named).elim
      | sizeofType _ typed =>
        obtain ⟨rfl, rfl⟩ := named.unique typed
        exact ⟨rfl, rfl⟩
      | cast typed => exact (unary_not_cast (sizeof word) typed).elim
      | suffixed outer => exact (unary_not_suffixed (sizeof word) outer).elim
    | cast named inner =>
      cases second with
      | unary spelled => exact (unary_not_cast spelled named).elim
      | sizeofType word => exact (unary_not_cast (sizeof word) named).elim
      | cast typed outer =>
        obtain ⟨rfl, rfl⟩ := named.unique typed
        have less := named.shorter
        obtain ⟨rfl, rfl⟩ := shorter (by omega) ⟨inner, ends⟩ ⟨outer, halts⟩
        exact ⟨rfl, rfl⟩
      | suffixed outer => exact (cast_not_suffixed named outer).elim
    | suffixed inner =>
      cases second with
      | unary spelled => exact (unary_not_suffixed spelled inner).elim
      | sizeofType word => exact (unary_not_suffixed (sizeof word) inner).elim
      | cast typed => exact (cast_not_suffixed typed inner).elim
      | suffixed outer => exact unambiguous_suffixed below short ⟨inner, ends⟩ ⟨outer, halts⟩

theorem chain_unique {size : Nat} {tier : Tier} {tighter : List Tier} (apart : tier ∉ tighter)
    (unique : Unambiguous (Whole (.operation tighter)) size) {left phrase : Phrase}
    {middle rest : List Token} (first : Chain tier tighter left middle phrase rest)
    (short : middle.length ≤ size)
    (ends : (Rung.operation (tier :: tighter)).goesOn (ahead rest) = false) {other : Phrase}
    {final : List Token} (second : Chain tier tighter left middle other final)
    (halts : (Rung.operation (tier :: tighter)).goesOn (ahead final) = false) :
    phrase = other ∧ rest = final := by
  -- An operator of the precedence does not end the chain.
  have goes {sign : BinarySign} {operator : Token} {start : List Token}
      (spelled : operator.kind = sign.kind) (placed : sign.tier = tier)
      (ends : (Rung.operation (tier :: tighter)).goesOn (ahead (operator :: start)) = false) :
      False := by
    have ruled := BinarySign.rule_eq_some.mpr ⟨sign, rfl, placed, rfl⟩
    have none := Rung.rule_of_not_goesOn ends
    rw [ahead_cons, spelled, ruled] at none
    cases none
  induction first with
  | done =>
    cases second with
    | done => exact ⟨rfl, rfl⟩
    | more spelled placed => exact (goes spelled placed ends).elim
  | more spelled placed inner others ih =>
    cases second with
    | done => exact (goes spelled placed halts).elim
    | more named _ outer further =>
      obtain rfl := BinarySign.kind_injective (spelled.symm.trans named)
      have less := inner.shorter
      simp only [List.length_cons] at short
      obtain ⟨rfl, rfl⟩ := unique (by omega) ⟨inner, others.ends apart ends⟩
        ⟨outer, further.ends apart halts⟩
      exact ih (by omega) ends further

theorem unambiguous_operation {size : Nat} {tiers : List Tier} (below : UniqueBelow size)
    (distinct : tiers.Nodup) : Unambiguous (Whole (.operation tiers)) size := by
  induction tiers with
  | nil =>
    rintro start phrase rest other final short ⟨first, ends⟩ ⟨second, halts⟩
    cases first with
    | operand inner =>
      cases second with
      | operand outer =>
        refine unambiguous_prefixed below short ⟨inner, ?_⟩ ⟨outer, ?_⟩
        · simpa [Rung.goesOn] using ends
        · simpa [Rung.goesOn] using halts
  | cons tier tighter ih =>
    obtain ⟨apart, distinct⟩ := List.nodup_cons.mp distinct
    rintro start phrase rest other final short ⟨first, ends⟩ ⟨second, halts⟩
    obtain ⟨left, middle, inner, chain⟩ := first.chain
    obtain ⟨_, _, outer, further⟩ := second.chain
    -- The first operands end at an operator of this precedence, or where the whole does.
    obtain ⟨rfl, rfl⟩ := ih distinct short ⟨inner, chain.ends apart ends⟩
      ⟨outer, further.ends apart halts⟩
    have less := inner.shorter
    exact chain_unique apart (ih distinct) chain (by omega) ends further halts

/-- An expression is taken in one way only. -/
theorem unambiguous_expression (size : Nat) : Unambiguous (Whole .expression) size := by
  induction size using Nat.strongRecOn with
  | ind size ih => exact unambiguous_operation ih (by decide)

end Phrase

end SmallC
