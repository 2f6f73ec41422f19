import Mathlib.Data.List.Forall2
import SmallC.Grammar.Units

/-! Two readings side by side: what corresponds before a step corresponds behind it, and where one
of them fails the other one fails too. -/

namespace SmallC

/-- What corresponds between two readings. -/
structure Pairing where
  /-- Pieces of source text. -/
  token : Token → Token → Prop
  /-- Names as they are spelled. -/
  name : String → String → Prop
  /-- What has been declared and reported. -/
  checker : Checker → Checker → Prop
  /-- Symbols by their ids. -/
  symbol : SymbolId → SymbolId → Prop
  /-- Scopes by their numbers. -/
  scope : ScopeId → ScopeId → Prop
  /-- Checked expressions. -/
  expression : Expression → Expression → Prop
  /-- Checked statements. -/
  statement : Statement → Statement → Prop
  /-- Functions as they are handed on. -/
  function : Function → Function → Prop
  /-- What stops reading. -/
  failure : Failure → Failure → Prop
  /-- Limits of nesting, and the levels that are left of them. -/
  levels : Nat → Nat → Prop := Eq
  /-- Whether the first reading may run out of levels where the second does not. -/
  lenient : Prop := False

namespace Pairing

variable {α β γ δ : Type}

/-- Readers with as many tokens left, one by one alike, and with limits that correspond. -/
structure Readers (pairing : Pairing) (left right : Reader) : Prop where
  /-- The tokens in hand. -/
  current : pairing.token left.current right.current
  /-- The tokens that follow. -/
  rest : List.Forall₂ pairing.token left.rest right.rest
  /-- The checkers. -/
  checker : pairing.checker left.checker right.checker
  /-- The limits of nesting. -/
  limit : pairing.levels left.limit right.limit

/-- Readers may adopt other checkers that correspond. -/
theorem Readers.adopt {pairing : Pairing} {left right : Reader} (readers : pairing.Readers left right)
    {checker other : Checker} (alike : pairing.checker checker other) :
    pairing.Readers { left with checker } { right with checker := other } :=
  ⟨readers.current, readers.rest, alike, readers.limit⟩

/-- Readings that have both succeeded, or have both failed, unless the first may be short of levels. -/
inductive Results (pairing : Pairing) (good : α → β → Prop) :
    EStateM.Result Failure Reader α → EStateM.Result Failure Reader β → Prop where
  /-- Both have succeeded, and what they give corresponds. -/
  | ok {value : α} {other : β} {left right : Reader} (holds : good value other)
    (readers : pairing.Readers left right) : Results pairing good (.ok value left) (.ok other right)
  /-- Both have failed, for reasons that correspond. -/
  | error {failure fault : Failure} {left right : Reader} (alike : pairing.failure failure fault) :
    Results pairing good (.error failure left) (.error fault right)
  /-- The first has run out of levels, whatever becomes of the second. -/
  | spent {line limit : Nat} {left : Reader} {result : EStateM.Result Failure Reader β}
    (permitted : pairing.lenient) :
    Results pairing good (.error (.tooDeep line limit) left) result

/-- From readers that correspond, two readings end alike. -/
def Agree (pairing : Pairing) (first : Reading α) (second : Reading β) (good : α → β → Prop) :
    Prop :=
  ∀ left right, pairing.Readers left right → pairing.Results good (first left) (second right)

/-- Two steps of checkers keep them in correspondence. -/
def Steps (pairing : Pairing) (first : Checker → α × Checker) (second : Checker → β × Checker)
    (good : α → β → Prop) : Prop :=
  ∀ left right, pairing.checker left right →
    good (first left).1 (second right).1 ∧ pairing.checker (first left).2 (second right).2

variable {pairing : Pairing} {good : α → β → Prop} {well : γ → δ → Prop}

theorem Agree.pure {value : α} {other : β} (holds : good value other) :
    pairing.Agree (Pure.pure value) (Pure.pure other) good :=
  fun _ _ readers => .ok holds readers

/-- What follows steps that agree starts from what they give. -/
theorem Agree.bind {first : Reading α} {second : Reading β} {next : α → Reading γ}
    {further : β → Reading δ} (start : pairing.Agree first second good)
    (go : ∀ value other, good value other → pairing.Agree (next value) (further other) well) :
    pairing.Agree (first >>= next) (second >>= further) well := by
  intro left right readers
  -- Only where both first steps have succeeded is there anything to follow.
  have begun := start left right readers
  change pairing.Results well (EStateM.bind first next left) (EStateM.bind second further right)
  unfold EStateM.bind
  generalize first left = one, second right = two at begun
  cases begun with
  | ok holds between => exact go _ _ holds _ _ between
  | error alike => exact .error alike
  | spent permitted => exact .spent permitted

/-- Steps whose values do not matter may come first. -/
theorem Agree.skip {first : Reading α} {second : Reading β} {next : α → Reading γ}
    {further : β → Reading δ} (start : pairing.Agree first second good)
    (go : ∀ value other, pairing.Agree (next value) (further other) well) :
    pairing.Agree (first >>= next) (second >>= further) well :=
  start.bind fun value other _ => go value other

/-- What follows values that are the same goes on from each of them. -/
theorem Agree.same {first second : Reading α} {next : α → Reading γ} {further : α → Reading δ}
    (start : pairing.Agree first second Eq)
    (go : ∀ value, pairing.Agree (next value) (further value) well) :
    pairing.Agree (first >>= next) (second >>= further) well :=
  start.bind fun value _ equal => equal ▸ go value

theorem Agree.discard {first : Reading α} {second : Reading β}
    (agree : pairing.Agree first second good) :
    pairing.Agree (Functor.discard first) (Functor.discard second) fun _ _ => True :=
  agree.bind fun _ _ _ => .pure trivial

theorem Agree.get : pairing.Agree MonadState.get MonadState.get pairing.Readers :=
  fun _ _ readers => .ok readers readers

theorem Agree.fail {failure fault : Failure} (alike : pairing.failure failure fault) :
    pairing.Agree (throw failure : Reading α) (throw fault : Reading β) good :=
  fun _ _ _ => .error alike

theorem Agree.act {first : Checker → α × Checker} {second : Checker → β × Checker}
    (steps : pairing.Steps first second good) :
    pairing.Agree (Reading.act first) (Reading.act second) good := by
  intro left right readers
  obtain ⟨holds, checker⟩ := steps _ _ readers.checker
  exact .ok holds (readers.adopt checker)

/-- A correspondence that whatever is built of corresponding parts respects. -/
structure Builds (pairing : Pairing) : Prop where
  /-- Expressions that no token spells are the same. -/
  itself : ∀ expression, pairing.expression expression expression
  /-- Constants that are spelled by tokens that correspond do so too. -/
  constant : ∀ {token other}, pairing.token token other → token.kind ≠ .identifier →
    ∀ read : String → Expression, pairing.expression (read token.text) (read other.text)
  /-- So do uses of symbols. -/
  identifier : ∀ {left right symbol other}, pairing.checker left right →
    pairing.symbol symbol other →
    pairing.expression (left.identifier symbol) (right.identifier other)
  /-- So do calls. -/
  calls : ∀ {symbol other arguments others}, pairing.symbol symbol other →
    List.Forall₂ pairing.expression arguments others →
    pairing.Steps (Checker.call symbol arguments) (Checker.call other others) pairing.expression
  /-- So does whatever is judged of an operand. -/
  judged : ∀ {operand other}, pairing.expression operand other →
    ∀ judge : Expression → Verdict Expression,
    pairing.Steps (Checker.record (judge operand)) (Checker.record (judge other))
      pairing.expression
  /-- So does whatever is judged of two operands. -/
  judgedBoth : ∀ {first second other others}, pairing.expression first other →
    pairing.expression second others → ∀ judge : Expression → Expression → Verdict Expression,
    pairing.Steps (Checker.record (judge first second)) (Checker.record (judge other others))
      pairing.expression
  /-- Expressions that correspond do so as statements. -/
  evaluate : ∀ {value other}, pairing.expression value other →
    pairing.statement (.evaluate value) (.evaluate other)
  /-- So do assignments. -/
  assigned : ∀ {place value other others}, pairing.expression place other →
    pairing.expression value others →
    pairing.Steps (Checker.record (checkAssign place value))
      (Checker.record (checkAssign other others)) pairing.statement
  /-- So do breaks. -/
  broken : ∀ {left right}, pairing.checker left right →
    pairing.Steps (Checker.record (checkBreak left.loops))
      (Checker.record (checkBreak right.loops)) pairing.statement
  /-- So do returns. -/
  returned : ∀ {left right value other}, pairing.checker left right →
    pairing.expression value other →
    pairing.Steps (Checker.record (checkReturn left.returned value))
      (Checker.record (checkReturn right.returned other)) pairing.statement
  /-- So do blocks. -/
  block : ∀ {scope other body others}, pairing.scope scope other →
    List.Forall₂ pairing.statement body others →
    pairing.statement (.block scope body) (.block other others)
  /-- So do loops with a test. -/
  whileLoop : ∀ {test other body others}, pairing.expression test other →
    pairing.statement body others → pairing.statement (.whileLoop test body) (.whileLoop other others)
  /-- So do loops with a header. -/
  forLoop : ∀ {init start test other increment next body others}, pairing.statement init start →
    pairing.expression test other → pairing.statement increment next →
    pairing.statement body others →
    pairing.statement (.forLoop init test increment body) (.forLoop start other next others)
  /-- So do conditionals. -/
  ifThen : ∀ {test other body others}, pairing.expression test other →
    pairing.statement body others → pairing.statement (.ifThen test body) (.ifThen other others)
  /-- So do conditionals with another branch. -/
  ifElse : ∀ {test other body others otherwise rest}, pairing.expression test other →
    pairing.statement body others → pairing.statement otherwise rest →
    pairing.statement (.ifElse test body otherwise) (.ifElse other others rest)
  /-- Functions are made of what corresponds. -/
  function : ∀ {left right opened closed scope other symbol id body statements},
    pairing.checker left right → pairing.scope opened closed → pairing.symbol symbol id →
    pairing.scope scope other → List.Forall₂ pairing.statement body statements →
    pairing.function ⟨symbol, (left.symbols.symbolsOf opened).length, scope, body⟩
      ⟨id, (right.symbols.symbolsOf closed).length, other, statements⟩

/-- A correspondence under which the same is built, because checkers that correspond answer alike. -/
structure Even (pairing : Pairing) : Prop where
  /-- Symbols are the same. -/
  symbol : pairing.symbol = Eq
  /-- So are scopes. -/
  scope : pairing.scope = Eq
  /-- So are expressions. -/
  expression : pairing.expression = Eq
  /-- So are statements. -/
  statement : pairing.statement = Eq
  /-- So are functions. -/
  function : pairing.function = Eq
  /-- Tokens that are no names are spelled alike. -/
  spelled : ∀ {token other}, pairing.token token other → token.kind ≠ .identifier →
    other.text = token.text
  /-- The same verdicts may be recorded. -/
  records : ∀ {α : Type} (verdict : Verdict α),
    pairing.Steps (Checker.record verdict) (Checker.record verdict) Eq
  /-- Symbols have the same types. -/
  typed : ∀ {left right}, pairing.checker left right → ∀ symbol,
    right.symbols.typeOf symbol = left.symbols.typeOf symbol
  /-- Scopes have as many symbols. -/
  counted : ∀ {left right}, pairing.checker left right → ∀ scope,
    (right.symbols.symbolsOf scope).length = (left.symbols.symbolsOf scope).length
  /-- As many loops are open. -/
  loops : ∀ {left right}, pairing.checker left right → right.loops = left.loops
  /-- Functions return the same type. -/
  returned : ∀ {left right}, pairing.checker left right → right.returned = left.returned

/-- Parts that are the same make up the same. -/
theorem Even.builds (even : pairing.Even) : pairing.Builds := by
  obtain ⟨token, name, checker, symbol, scope, expression, statement, function, failure⟩ := pairing
  obtain ⟨rfl, rfl, rfl, rfl, rfl, spelled, records, typed, counted, loops, returned⟩ := even
  -- Nodes see of a checker only the types of symbols, the loops and the returned type.
  exact {
    itself _ := rfl
    constant alike other read := congrArg read (spelled alike other).symm
    identifier := by
      rintro left right symbol _ alike rfl
      exact congrArg (Expression.identifier symbol) (typed alike symbol).symm
    calls := by
      rintro symbol _ arguments others rfl each left right alike
      obtain rfl : arguments = others := List.forall₂_eq_eq_eq ▸ each
      unfold Checker.call
      rw [typed alike]
      exact records _ left right alike
    judged := by rintro _ _ rfl judge; exact records _
    judgedBoth := by rintro _ _ _ _ rfl rfl judge; exact records _
    evaluate := by rintro _ _ rfl; rfl
    assigned := by rintro _ _ _ _ rfl rfl; exact records _
    broken := by
      intro left right alike
      rw [loops alike]
      exact records _
    returned := by
      rintro left right _ _ alike rfl
      rw [returned alike]
      exact records _
    block := by
      rintro _ _ body others rfl each
      obtain rfl : body = others := List.forall₂_eq_eq_eq ▸ each
      rfl
    whileLoop := by rintro _ _ _ _ rfl rfl; rfl
    forLoop := by rintro _ _ _ _ _ _ _ _ rfl rfl rfl rfl; rfl
    ifThen := by rintro _ _ _ _ rfl rfl; rfl
    ifElse := by rintro _ _ _ _ _ _ rfl rfl rfl; rfl
    function := by
      rintro left right opened _ _ _ symbol _ body statements alike rfl rfl rfl each
      obtain rfl : body = statements := List.forall₂_eq_eq_eq ▸ each
      change Function.mk _ _ _ _ = Function.mk _ _ _ _
      rw [counted alike] }

/-- A correspondence that every step of reading respects. -/
structure Lawful (pairing : Pairing) : Prop extends pairing.Builds where
  /-- Tokens that correspond are of one kind. -/
  kind : ∀ {token other}, pairing.token token other → other.kind = token.kind
  /-- They are on one line. -/
  line : ∀ {token other}, pairing.token token other → other.position.line = token.position.line
  /-- Whole numbers are spelled alike. -/
  digits : ∀ {token other}, pairing.token token other → token.kind = .integer →
    other.text = token.text
  /-- Names correspond. -/
  spelled : ∀ {token other}, pairing.token token other → token.kind = .identifier →
    pairing.name token.text other.text
  /-- Both sources start alike. -/
  origin : pairing.token (.atEnd .start) (.atEnd .start)
  /-- So do both checkers. -/
  fresh : pairing.checker {} {}
  /-- The source ends alike behind tokens that correspond. -/
  ended : ∀ {token other}, pairing.token token other →
    pairing.token (.atEnd token.position) (.atEnd other.position)
  /-- Tokens out of place fail alike, whichever spelling is shown. -/
  unexpected : ∀ {token other}, pairing.token token other →
    pairing.failure (.unexpectedToken token.position.line token.shown)
        (.unexpectedToken other.position.line other.shown) ∧
      pairing.failure (.unexpectedToken token.position.line token.text)
        (.unexpectedToken other.position.line other.text)
  /-- Levels run out alike, unless the first side may be short of them. -/
  tooDeep : ∀ line {limit bound}, ¬ pairing.lenient → pairing.levels limit bound →
    pairing.failure (.tooDeep line limit) (.tooDeep line bound)
  /-- Only a side that may be short of levels has none where the other has one. -/
  bottom : ∀ {more}, pairing.levels 0 (more + 1) → pairing.lenient
  /-- Where the first side has a level, the second has one, and what is left corresponds. -/
  lower : ∀ {levels more}, pairing.levels (levels + 1) more →
    ∃ others, more = others + 1 ∧ pairing.levels levels others
  /-- Numbers are out of range alike. -/
  outOfRange : ∀ line text, pairing.failure (.integerRange line text) (.integerRange line text)
  /-- Arrays whose names correspond fail alike. -/
  tooLarge : ∀ {name other} line, pairing.name name other →
    pairing.failure (.arrayTooLarge line name) (.arrayTooLarge line other)
  /-- Reports may be put at tokens that correspond. -/
  moves : ∀ {left right token other}, pairing.checker left right → pairing.token token other →
    pairing.checker (left.moveTo token.position) (right.moveTo other.position)
  /-- Scopes are opened alike. -/
  opens : pairing.Steps Checker.openScope Checker.openScope pairing.scope
  /-- Scopes are closed alike. -/
  closes : pairing.Steps Checker.closeScope Checker.closeScope pairing.scope
  /-- So are those of parameters without a body. -/
  forgets : ∀ {left right}, pairing.checker left right →
    pairing.checker left.closeParameters right.closeParameters
  /-- Functions are begun alike. -/
  begins : ∀ {left right} type, pairing.checker left right →
    pairing.checker (left.beginFunction type) (right.beginFunction type)
  /-- Loops are entered alike. -/
  enters : ∀ {left right}, pairing.checker left right →
    pairing.checker left.enterLoop right.enterLoop
  /-- Loops are left alike. -/
  leaves : ∀ {left right}, pairing.checker left right →
    pairing.checker left.leaveLoop right.leaveLoop
  /-- Variables whose names correspond are declared alike. -/
  declares : ∀ {name other} type, pairing.name name other →
    pairing.Steps (Checker.declareVariable name type) (Checker.declareVariable other type)
      fun _ _ => True
  /-- So are functions. -/
  prototype : ∀ {name other} type, pairing.name name other →
    pairing.Steps (Checker.declareFunction name type) (Checker.declareFunction other type)
      fun _ _ => True
  /-- So are functions with bodies. -/
  definition : ∀ {name other} type, pairing.name name other →
    pairing.Steps (Checker.defineFunction name type) (Checker.defineFunction other type)
      pairing.symbol
  /-- Names that correspond stand for symbols that do. -/
  resolves : ∀ {name other}, pairing.name name other →
    pairing.Steps (Checker.resolve name) (Checker.resolve other) pairing.symbol

/-- A correspondence under which both sides have as many levels and run out of them together. -/
structure Strict (pairing : Pairing) : Prop extends pairing.Lawful where
  /-- Every limit corresponds to itself. -/
  same : ∀ limit, pairing.levels limit limit
  /-- No side may be short of levels. -/
  strict : ¬ pairing.lenient

/-- The kind of the token in hand is the same on both sides, and is known to what follows. -/
theorem Agree.known (lawful : pairing.Lawful) {next : TokenKind → Reading α}
    {further : TokenKind → Reading β}
    (go : ∀ found left right, pairing.Readers left right → left.current.kind = found →
      pairing.Results good (next found left) (further found right)) :
    pairing.Agree (Reading.kind >>= next) (Reading.kind >>= further) good := by
  intro left right readers
  have decided {γ : Type} (next : TokenKind → Reading γ) (reader : Reader) :
      (Reading.kind >>= next) reader = next reader.current.kind reader := rfl
  rw [decided, decided, lawful.kind readers.current]
  exact go _ left right readers rfl

/-- The kind of the token in hand is the same on both sides. -/
theorem Agree.kind (lawful : pairing.Lawful) {next : TokenKind → Reading α}
    {further : TokenKind → Reading β} (go : ∀ found, pairing.Agree (next found) (further found) good) :
    pairing.Agree (Reading.kind >>= next) (Reading.kind >>= further) good :=
  .known lawful fun found left right readers _ => go found left right readers

theorem Readers.step (lawful : pairing.Lawful) {left right : Reader}
    (readers : pairing.Readers left right) : pairing.Readers left.step right.step := by
  obtain ⟨current, rest, checker, limit⟩ := left
  obtain ⟨other, others, known, bound⟩ := right
  obtain ⟨here, after, checkers, same⟩ := readers
  -- Behind the last token both sources end.
  cases after with
  | nil =>
    have ended := lawful.ended here
    exact ⟨ended, .nil, lawful.moves checkers ended, same⟩
  | cons next after => exact ⟨next, after, lawful.moves checkers next, same⟩

theorem Agree.advance (lawful : pairing.Lawful) :
    pairing.Agree Reading.advance Reading.advance pairing.token :=
  fun _ _ readers => .ok readers.current (readers.step lawful)

theorem Agree.unexpected (lawful : pairing.Lawful) :
    pairing.Agree (Reading.unexpected : Reading α) (Reading.unexpected : Reading β) good :=
  Agree.get.bind fun _ _ readers => .fail (lawful.unexpected readers.current).1

/-- Where the first side may be short of levels, it may run out of them alone. -/
theorem Agree.spent (permitted : pairing.lenient) {second : Reading β} :
    pairing.Agree (Reading.tooDeep : Reading α) second good :=
  fun _ _ _ => .spent permitted

theorem Agree.tooDeep (lawful : pairing.Lawful) :
    pairing.Agree (Reading.tooDeep : Reading α) (Reading.tooDeep : Reading β) good := by
  -- The two limits are shown, so failures differ with them unless the pairing is strict.
  by_cases permitted : pairing.lenient
  · exact .spent permitted
  · refine Agree.get.bind fun left right readers => ?_
    rw [lawful.line readers.current]
    exact .fail (lawful.tooDeep _ permitted readers.limit)

/-- Where the first side has no level left, it fails, and the second does so if it has none. -/
theorem Agree.noLevel (lawful : pairing.Lawful) {more : Nat} (depth : pairing.levels 0 more)
    {second : Reading β} (bottom : more = 0 → second = Reading.tooDeep) :
    pairing.Agree (Reading.tooDeep : Reading α) second good := by
  cases more with
  | zero => rw [bottom rfl]; exact .tooDeep lawful
  | succ more => exact .spent (lawful.bottom depth)

/-- Tokens that are taken are of the kind that is wanted. -/
theorem Agree.expect (lawful : pairing.Lawful) (wanted : TokenKind) :
    pairing.Agree (Reading.expect wanted) (Reading.expect wanted) fun token other =>
      token.kind = wanted ∧ pairing.token token other := by
  intro left right readers
  have same := lawful.kind readers.current
  -- The kinds are alike, so both sides take the token or both refuse it.
  have decided (reader : Reader) : Reading.expect wanted reader =
      (if reader.current.kind = wanted then Reading.advance else Reading.unexpected) reader := rfl
  rw [decided, decided, same]
  split
  · next found => exact .ok ⟨found, readers.current⟩ (readers.step lawful)
  · exact Agree.unexpected lawful left right readers

/-- Items on both sides are as many, one by one alike. -/
theorem Agree.whileAt (lawful : pairing.Lawful) (test : TokenKind → Bool) {item : Reading α}
    {other : Reading β} (each : pairing.Agree item other good) {clock ticks : List Token}
    (long : ticks.length = clock.length) :
    pairing.Agree (Reading.whileAt test item clock) (Reading.whileAt test other ticks)
      (List.Forall₂ good) := by
  -- Tokens of one kind pass the test together, and the clocks tick together.
  induction clock generalizing ticks with
  | nil =>
    obtain rfl := List.eq_nil_of_length_eq_zero long
    refine .kind lawful fun found => ?_
    split
    · exact .unexpected lawful
    · exact .pure .nil
  | cons _ clock ih =>
    cases ticks with
    | nil => cases long
    | cons _ ticks =>
      refine .kind lawful fun found => ?_
      split
      · exact each.bind fun _ _ first => (ih (Nat.succ.inj long)).bind fun _ _ others =>
          .pure (.cons first others)
      · exact .pure .nil

theorem Readers.remaining {left right : Reader} (readers : pairing.Readers left right) :
    right.remaining.length = left.remaining.length :=
  congrArg Nat.succ readers.rest.length_eq.symm

theorem Agree.many (lawful : pairing.Lawful) (test : TokenKind → Bool) {item : Reading α}
    {other : Reading β} (each : pairing.Agree item other good) :
    pairing.Agree (Reading.many test item) (Reading.many test other) (List.Forall₂ good) :=
  Agree.get.bind fun _ _ readers => .whileAt lawful test each readers.remaining

theorem Agree.commaSeparated (lawful : pairing.Lawful) {item : Reading α} {other : Reading β}
    (each : pairing.Agree item other good) :
    pairing.Agree (Reading.commaSeparated item) (Reading.commaSeparated other)
      (List.Forall₂ good) := by
  refine each.bind fun _ _ first => ?_
  refine (Agree.many lawful _ ((Agree.advance lawful).discard.skip fun _ _ => each)).bind ?_
  exact fun _ _ others => .pure (.cons first others)

theorem Agree.insideLoop (lawful : pairing.Lawful) {body : Reading α} {other : Reading β}
    (agree : pairing.Agree body other good) :
    pairing.Agree (Reading.insideLoop body) (Reading.insideLoop other) good := by
  intro left right readers
  -- The body starts from checkers that have entered the loop on both sides.
  have ended := agree { left with checker := left.checker.enterLoop }
    { right with checker := right.checker.enterLoop }
    (readers.adopt (lawful.enters readers.checker))
  unfold Reading.insideLoop
  generalize body { left with checker := left.checker.enterLoop } = one,
    other { right with checker := right.checker.enterLoop } = two at ended
  cases ended with
  | ok holds between => exact .ok holds (between.adopt (lawful.leaves between.checker))
  | error alike => exact .error alike
  | spent permitted => exact .spent permitted

theorem Agree.check {verdict : Verdict α} {other : Verdict β}
    (steps : pairing.Steps (Checker.record verdict) (Checker.record other) good) :
    pairing.Agree (Reading.check verdict) (Reading.check other) good :=
  .act steps

theorem Agree.adjust {first second : Checker → Checker}
    (keeps : ∀ {left right}, pairing.checker left right → pairing.checker (first left) (second right)) :
    pairing.Agree (Reading.adjust first) (Reading.adjust second) fun _ _ => True :=
  .act fun _ _ checkers => ⟨trivial, keeps checkers⟩

end Pairing

end SmallC
