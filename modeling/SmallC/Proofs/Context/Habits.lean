import SmallC.Grammar.Expressions

/-! Habits of reading: what the parts that read names, types and declarations keep to, because each of
their steps does. -/

namespace SmallC

namespace Reading

/-- Something that the single steps of reading keep to, and with them one part after the other. -/
structure Habit (keeps : {α : Type} → Reading α → Prop) : Prop where
  /-- Doing nothing keeps to it. -/
  pure : ∀ {α : Type} (value : α), keeps (Pure.pure value)
  /-- So do parts one after the other. -/
  bind : ∀ {α β : Type} {action : Reading α} {next : α → Reading β}, keeps action →
    (∀ value, keeps (next value)) → keeps (action >>= next)
  /-- So does a look at the reader. -/
  get : keeps (MonadState.get : Reading Reader)
  /-- So does failing. -/
  throw : ∀ {α : Type} (failure : Failure), keeps (MonadExcept.throw failure : Reading α)
  /-- So does taking a token. -/
  advance : keeps Reading.advance
  /-- So does declaring a variable. -/
  declareVariable : ∀ name type, keeps (act (Checker.declareVariable name type))

namespace Habit

variable {keeps : {α : Type} → Reading α → Prop} (habit : Habit keeps) {α : Type}

include habit

theorem discard {action : Reading α} (kept : keeps action) : keeps (Functor.discard action) :=
  habit.bind kept fun _ => habit.pure _

/-- A part whose value does not matter may come first. -/
theorem skip {β : Type} {action : Reading α} {next : Reading β} (kept : keeps action)
    (rest : keeps next) : keeps (do Functor.discard action; next) :=
  habit.bind (habit.discard kept) fun _ => rest

theorem kind : keeps Reading.kind :=
  habit.bind habit.get fun _ => habit.pure _

theorem unexpected : keeps (Reading.unexpected : Reading α) :=
  habit.bind habit.get fun _ => habit.throw _

theorem tooDeep : keeps (Reading.tooDeep : Reading α) :=
  habit.bind habit.get fun _ => habit.throw _

theorem expect (wanted : TokenKind) : keeps (Reading.expect wanted) := by
  refine habit.bind habit.kind fun found => ?_
  split
  · exact habit.advance
  · exact habit.unexpected

theorem whileAt (test : TokenKind → Bool) {item : Reading α} (kept : keeps item)
    (clock : List Token) : keeps (Reading.whileAt test item clock) := by
  -- The items take the tokens of the clock one by one.
  induction clock with
  | nil =>
    refine habit.bind habit.kind fun found => ?_
    split
    · exact habit.unexpected
    · exact habit.pure _
  | cons _ clock ih =>
    refine habit.bind habit.kind fun found => ?_
    split
    · exact habit.bind kept fun _ => habit.bind ih fun _ => habit.pure _
    · exact habit.pure _

theorem many (test : TokenKind → Bool) {item : Reading α} (kept : keeps item) :
    keeps (Reading.many test item) :=
  habit.bind habit.get fun _ => habit.whileAt test kept _

theorem commaSeparated {item : Reading α} (kept : keeps item) :
    keeps (Reading.commaSeparated item) :=
  habit.bind kept fun _ => habit.bind (habit.many _ (habit.skip habit.advance kept)) fun _ =>
    habit.pure _

/-! Names, numbers and types. -/

theorem name : keeps Reading.name :=
  habit.bind (habit.expect _) fun _ => habit.pure _

theorem wholeNumber : keeps Reading.wholeNumber := by
  refine habit.bind (habit.expect _) fun token => ?_
  split
  · exact habit.pure _
  · exact habit.throw _

theorem specifier : keeps Reading.specifier := by
  refine habit.bind habit.kind fun found => ?_
  split
  · exact habit.skip habit.advance (habit.pure _)
  · exact habit.unexpected

theorem stars : keeps Reading.stars :=
  habit.bind (habit.many _ habit.advance) fun _ => habit.pure _

theorem startsTypeName : keeps Reading.startsTypeName :=
  habit.bind habit.get fun _ => habit.pure _

theorem typeName : keeps Reading.typeName :=
  habit.skip (habit.expect _) (habit.bind habit.specifier fun _ => habit.bind habit.stars fun _ =>
    habit.skip (habit.expect _) (habit.pure _))

theorem arrayType (specifier : Specifier) (indirection : Nat) (name : String) :
    keeps (Reading.arrayType specifier indirection name) := by
  -- Either way to refuse an array ends in a failure, which every habit allows.
  have length : keeps arrayLength := by
    refine habit.bind habit.get fun reader => habit.bind habit.wholeNumber fun length => ?_
    split
    · exact habit.throw _
    · exact habit.pure _
  refine habit.skip (habit.expect _) (habit.bind habit.get fun reader => ?_)
  refine habit.bind length fun length => habit.skip (habit.expect _) ?_
  split
  · exact habit.pure _
  · exact habit.throw _

/-! Declarations. -/

theorem declareObject (specifier : Specifier) (indirection : Nat) (name : String) :
    keeps (Reading.declareObject specifier indirection name) := by
  have type : keeps (variableType specifier indirection name) := by
    refine habit.bind habit.kind fun found => ?_
    split
    · exact habit.arrayType specifier indirection name
    · exact habit.pure _
  exact habit.bind type fun type => habit.discard (habit.declareVariable name type)

theorem declarations : keeps Reading.declarations := by
  refine habit.discard (habit.many _ (habit.bind habit.specifier fun specifier => ?_))
  have declarator : keeps (declarator specifier) :=
    habit.bind habit.stars fun _ => habit.bind habit.name fun _ => habit.declareObject _ _ _
  exact habit.skip (habit.commaSeparated declarator) (habit.discard (habit.expect _))

theorem parameter : keeps Reading.parameter :=
  habit.bind habit.specifier fun _ => habit.bind habit.stars fun _ => habit.bind habit.name fun _ =>
    habit.skip (habit.declareVariable _ _) (habit.pure _)

theorem furtherParameters (clock : List Token) : keeps (Reading.furtherParameters clock) := by
  -- The clock has a token for each comma, so at its end there is none.
  induction clock with
  | nil =>
    refine habit.bind habit.kind fun found => ?_
    split
    · exact habit.unexpected
    · exact habit.pure _
  | cons _ clock ih =>
    refine habit.bind habit.kind fun found => ?_
    split
    · refine habit.skip habit.advance (habit.bind habit.kind fun next => ?_)
      split
      · exact habit.skip habit.advance (habit.pure _)
      · exact habit.bind habit.parameter fun _ => habit.bind ih fun _ => habit.pure _
    · exact habit.pure _

theorem parameterList : keeps Reading.parameterList := by
  refine habit.bind habit.kind fun found => ?_
  split
  · exact habit.skip habit.advance (habit.pure _)
  · exact habit.bind habit.parameter fun _ => habit.bind habit.get fun _ =>
      habit.bind (habit.furtherParameters _) fun _ => habit.pure _

end Habit

end Reading

end SmallC
