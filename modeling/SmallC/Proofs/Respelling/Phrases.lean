import Mathlib.Data.List.Forall2
import SmallC.Proofs.Derivations.Phrases
import SmallC.Proofs.Typing.Growth
import SmallC.Proofs.Typing.Subscripts

/-! Respelling: an expression whose subscripts are spelled out as what a sum leads to becomes the same
tree, where nothing is reported. -/

namespace SmallC

/-! Spelling out. -/

/-- Some subscripts of the first phrase are spelled out in the second one. -/
inductive Phrase.SpelledOut : Phrase → Phrase → Prop where
  /-- A constant stays. -/
  | literal {token : Token} {value : Expression} (constant : Constant token value) :
    SpelledOut (.literal value) (.literal value)
  /-- A name stays. -/
  | name (spelling : String) : SpelledOut (.name spelling) (.name spelling)
  /-- Arguments are spelled out one by one. -/
  | call (callee : String) {arguments others : List Phrase}
    (each : List.Forall₂ SpelledOut arguments others) :
    SpelledOut (.call callee arguments) (.call callee others)
  /-- The operand may be spelled out. -/
  | unary (sign : UnarySign) {operand other : Phrase} (inner : SpelledOut operand other) :
    SpelledOut (.unary sign operand) (.unary sign other)
  /-- The size of a type stays. -/
  | sizeofType (type : Ty) : SpelledOut (.sizeofType type) (.sizeofType type)
  /-- A subscript may stay one. -/
  | subscript {array base index offset : Phrase} (first : SpelledOut array base)
    (second : SpelledOut index offset) :
    SpelledOut (.subscript array index) (.subscript base offset)
  /-- A subscript becomes what the sum of the pointer and the index leads to. -/
  | sum {array base index offset : Phrase} (first : SpelledOut array base)
    (second : SpelledOut index offset) :
    SpelledOut (.subscript array index) (.unary .dereference (.binary .plus base offset))
  /-- The operand may be spelled out. -/
  | step (op : StepOp) {operand other : Phrase} (inner : SpelledOut operand other) :
    SpelledOut (.step op operand) (.step op other)
  /-- Both operands may be spelled out. -/
  | binary (sign : BinarySign) {left right first second : Phrase} (before : SpelledOut left first)
    (behind : SpelledOut right second) :
    SpelledOut (.binary sign left right) (.binary sign first second)

/-! Steps that do the same in silence. -/

namespace Checking

variable {α β : Type} {given : Prop} {good : α → Prop} {best : β → Prop} {step other : Checking α}

/-- The step loses nothing, and under what is given, where it leaves a sound checker silent, the other
step does the same, the checker stays sound, and the answer is good. -/
def Mirrors (given : Prop) (good : α → Prop) (step other : Checking α) : Prop :=
  ∀ checker : Checker, checker.Grows (step checker).2 ∧
    (given → checker.Sound → (step checker).2.reports = [] →
      other checker = step checker ∧ (step checker).2.Sound ∧ good (step checker).1)

/-- A step that another one mirrors, with nothing to be said of the answer. -/
abbrev Same (given : Prop) (step other : Checking α) : Prop :=
  Mirrors given (fun _ => True) step other

/-- One step after the other; the second one may rely on a good answer of the first one. -/
theorem Mirrors.bind {next further : α → Checking β} (first : Mirrors given good step other)
    (second : ∀ value, Mirrors (given ∧ good value) best (next value) (further value)) :
    Mirrors given best (step >>= next) (other >>= further) := by
  intro checker
  obtain ⟨early, same⟩ := first checker
  obtain ⟨late, alike⟩ := second (step checker).1 (step checker).2
  refine ⟨early.trans late, fun holds sound silent => ?_⟩
  -- What is silent at the end has been silent between the steps.
  obtain ⟨equal, kept, fine⟩ := same holds sound (late.quiet silent)
  show further (other checker).1 (other checker).2 = _ ∧ _
  rw [equal]
  exact alike ⟨holds, fine⟩ kept silent

/-- An answer that is good already changes nothing. -/
theorem mirrors_pure {value : α} (fine : given → good value) :
    Mirrors given good (pure value) (pure value) :=
  fun checker => ⟨.refl checker, fun holds sound _ => ⟨rfl, sound, fine holds⟩⟩

/-- A verdict may be relied on where it has no problem. -/
theorem mirrors_record {verdict : Verdict α}
    (fine : given → verdict.problem? = none → good verdict.node) :
    Mirrors given good (Checker.record verdict) (Checker.record verdict) :=
  fun checker => ⟨(Checker.extends_record verdict checker).toGrows, fun holds sound silent =>
    ⟨rfl, sound.record verdict, fine holds (Checker.problem_of_record silent)⟩⟩

/-- A step is the same as itself. -/
theorem same_self (grows : ∀ checker : Checker, checker.Grows (step checker).2)
    (sound : given → ∀ checker : Checker, checker.Sound → (step checker).2.Sound) :
    Same given step step :=
  fun checker => ⟨grows checker, fun holds before _ => ⟨rfl, sound holds checker before, trivial⟩⟩

theorem same_pure (value : α) : Same given (pure value) (pure value) :=
  mirrors_pure fun _ => trivial

theorem same_get : Same given get get :=
  same_self .refl fun _ _ => id

theorem same_record (verdict : Verdict α) :
    Same given (Checker.record verdict) (Checker.record verdict) :=
  mirrors_record fun _ _ => trivial

theorem same_openScope : Same given Checker.openScope Checker.openScope :=
  same_self (fun checker => ⟨id, checker.symbols.keeps_openScope⟩) fun _ _ => .openScope

theorem same_closeScope : Same given Checker.closeScope Checker.closeScope :=
  same_self (fun checker => ⟨id, checker.symbols.keeps_closeScope⟩) fun _ _ => .closeScope

theorem same_declareVariable (name : String) {type : Ty} (proper : type ≠ .error) :
    Same given (Checker.declareVariable name type) (Checker.declareVariable name type) :=
  same_self (fun checker => (checker.extends_declareVariable name type).toGrows)
    fun _ _ sound => sound.declareVariable name proper

theorem same_defineFunction (name : String) {type : Ty} (proper : given → type ≠ .error) :
    Same given (Checker.defineFunction name type) (Checker.defineFunction name type) :=
  same_self (fun checker => (checker.extends_defineFunction name type).toGrows)
    fun holds _ sound => sound.defineFunction name (proper holds)

/-- A change of the checker that loses nothing. -/
theorem same_modify {change : Checker → Checker}
    (grows : ∀ checker : Checker, checker.Grows (change checker))
    (sound : ∀ checker : Checker, checker.Sound → (change checker).Sound) :
    Same given (modify change : Checking PUnit) (modify change) :=
  same_self grows fun _ => sound

theorem Mirrors.discard (same : Same given step other) :
    Same given (Functor.discard step) (Functor.discard other) :=
  same.bind fun _ => same_pure ()

/-- Steps for the items of a list are taken one after the other. -/
theorem same_mapM {item : β → Checking α} (things : List β)
    (each : ∀ (given : Prop) (thing : β), Same given (item thing) (item thing)) :
    Same given (things.mapM' item) (things.mapM' item) := by
  -- What is given grows along the list, so it stays free.
  induction things generalizing given with
  | nil => exact same_pure []
  | cons first rest ih => exact (each given first).bind fun _ => ih.bind fun _ => same_pure _

end Checking

open Checking

/-! What is judged in silence has a proper type. -/

/-- The expression has a type of its own. -/
def Expression.Proper (expression : Expression) : Prop := expression.type ≠ .error

/-- A fair verdict makes an error of nothing without a word. -/
theorem Verdict.Fair.proper {reported : Prop} {verdict : Verdict Expression}
    (fair : verdict.Fair reported) (fresh : ¬ reported) (quiet : verdict.problem? = none) :
    verdict.node.Proper := by
  intro failed
  have heard := fair.heard fresh
  rw [quiet, failed] at heard
  cases heard

/-- An operator whose check finds no problem makes a proper expression of a proper operand. -/
theorem UnarySign.check_proper (sign : UnarySign) {operand : Expression} (fine : operand.Proper)
    (quiet : (sign.check operand).problem? = none) : (sign.check operand).node.Proper := by
  cases sign with
  | not => exact (checkNot_fair operand).proper fine quiet
  | negate => exact (checkNegate_fair operand).proper fine quiet
  | dereference => exact (checkDereference_fair operand).proper fine quiet
  | address => exact (checkAddress_fair operand).proper fine quiet
  | cast target => exact (checkCast_fair target operand).proper fine quiet
  -- The size of anything is a word.
  | sizeof => exact nofun

/-- A fair rule that finds no problem makes a proper expression of proper operands. -/
theorem FairRule.proper {rule : Expression → Expression → Verdict Expression} (fair : FairRule rule)
    {left right : Expression} (first : left.Proper) (second : right.Proper)
    (quiet : (rule left right).problem? = none) : (rule left right).node.Proper :=
  (fair left right).proper (fun failed => failed.elim first second) quiet

/-- Constants have types of their own. -/
theorem Constant.proper {token : Token} {value : Expression} (constant : Constant token value) :
    value.Proper := by
  cases constant <;> exact nofun

/-! Phrases. -/

/-- A name that is resolved in silence stands for a symbol with a type of its own. -/
theorem Checking.mirrors_identifier {given : Prop} (spelling : String) :
    Mirrors given Expression.Proper (Phrase.name spelling).elaborate
      (Phrase.name spelling).elaborate := by
  intro checker
  rw [Phrase.elaborate]
  exact ⟨(checker.extends_resolve spelling).toGrows, fun _ sound silent =>
    ⟨rfl, sound.resolve spelling, Checker.typeOf_resolve sound silent⟩⟩

/-- A verdict without a problem leaves the checker as it is. -/
theorem Checker.record_quiet {verdict : Verdict Expression} (quiet : verdict.problem? = none)
    (checker : Checker) : checker.record verdict = (verdict.node, checker) := by
  unfold record
  rw [quiet]

/-- A verdict adds no report exactly where it has no problem. -/
theorem Checker.reports_record_iff {verdict : Verdict Expression} {checker : Checker} :
    (checker.record verdict).2.reports = checker.reports ↔ verdict.problem? = none := by
  unfold record
  cases verdict.problem? with
  | none => exact ⟨fun _ => rfl, fun _ => rfl⟩
  | some problem => simp [report]

/-- Check a sum, and then what it leads to. -/
def Checking.followSum (left right : Expression) : Checking Expression := do
  let sum ← Checker.record (checkAdd left right)
  Checker.record (checkDereference sum)

/-- Where a subscript is accepted, it makes what following the sum makes. -/
theorem followSum_eq {left right : Expression} (pointer : left.promote.type.isPointer = true)
    (index : right.promote.type = .int) (checker : Checker) :
    followSum left right checker = checker.record (checkSubscript left right) := by
  obtain ⟨quiet, same⟩ := checkSubscript_eq pointer index
  show (checker.record (checkAdd left right)).2.record (checkDereference (checkAdd left right).node) = _
  rw [same, Checker.record_quiet quiet]

/-- Operands that are fine make the same subscript in either spelling. -/
theorem Checking.mirrors_sum {given : Prop} {left right : Expression}
    (fine : given → left.Proper ∧ right.Proper) :
    Mirrors given Expression.Proper (Checker.record (checkSubscript left right))
      (followSum left right) := by
  intro checker
  refine ⟨(Checker.extends_record _ checker).toGrows, fun holds sound silent => ?_⟩
  -- Silence means that the subscript is accepted, because no operand has been reported.
  have quiet := Checker.problem_of_record silent
  obtain ⟨first, second⟩ := fine holds
  have proper := FairRule.proper checkSubscript_fair first second quiet
  obtain ⟨pointer, index⟩ := (checkSubscript_accepts left right).mp ⟨quiet, proper⟩
  exact ⟨followSum_eq pointer index checker, sound.record _, proper⟩

/-- The callee of a call keeps its type while the arguments are checked. -/
theorem Checking.mirrors_call {given : Prop} (callee : String) {arguments others : List Phrase}
    (each : Mirrors given (∀ value ∈ ·, value.Proper) (Phrase.elaborateAll arguments)
      (Phrase.elaborateAll others)) :
    Mirrors given Expression.Proper (Phrase.call callee arguments).elaborate
      (Phrase.call callee others).elaborate := by
  intro checker
  rw [Phrase.elaborate, Phrase.elaborate]
  let resolved := checker.resolve callee
  let passed := Phrase.elaborateAll arguments resolved.2
  have early := (checker.extends_resolve callee).toGrows
  obtain ⟨grows, same⟩ := each resolved.2
  let verdict := checkCall resolved.1 (passed.2.symbols.typeOf resolved.1) passed.1
  have late := (Checker.extends_record verdict passed.2).toGrows
  refine ⟨early.trans (grows.trans late), fun holds sound silent => ?_⟩
  obtain ⟨equal, kept, fine⟩ := same holds (sound.resolve callee) (late.quiet silent)
  have typed := Checker.typeOf_resolve sound ((grows.trans late).quiet silent)
  -- What has been declared when the callee is resolved is declared behind the arguments.
  have held : passed.2.symbols.typeOf resolved.1 ≠ .error := by
    rw [grows.keeps.typeOf typed]
    exact typed
  have fresh : ¬ ReportedCall (passed.2.symbols.typeOf resolved.1) passed.1 := by
    rintro (failed | ⟨-, value, member, failed⟩)
    · exact held failed
    · exact fine value member failed
  have proper := (checkCall_fair resolved.1 _ passed.1).proper fresh
    (Checker.problem_of_record silent)
  refine ⟨?_, kept.record verdict, proper⟩
  show (Phrase.elaborateAll others resolved.2).2.call resolved.1
    (Phrase.elaborateAll others resolved.2).1 = _
  rw [equal]
  rfl

namespace Phrase

mutual

/-- A phrase that is checked in silence makes the same expression when it is spelled out. -/
theorem SpelledOut.mirrors {phrase other : Phrase} {given : Prop} :
    phrase.SpelledOut other → Mirrors given Expression.Proper phrase.elaborate other.elaborate
  | .literal constant => by
    rw [elaborate]
    exact mirrors_pure fun _ => constant.proper
  | .name spelling => mirrors_identifier spelling
  | .call callee each => mirrors_call callee (SpelledOut.mirrorsAll each)
  | .unary sign inner => by
    rw [elaborate, elaborate]
    exact inner.mirrors.bind fun value => mirrors_record fun known quiet =>
      sign.check_proper known.2 quiet
  | .sizeofType type => by
    rw [elaborate]
    exact mirrors_pure fun _ => nofun
  | .subscript first second => by
    rw [elaborate, elaborate]
    exact first.mirrors.bind fun left => second.mirrors.bind fun right =>
      mirrors_record fun known quiet =>
        FairRule.proper checkSubscript_fair known.1.2 known.2 quiet
  | .sum first second => by
    rw [elaborate, elaborate, elaborate]
    -- Both spellings check the pointer, then the index.
    rw [bind_assoc]
    refine first.mirrors.bind fun left => ?_
    rw [bind_assoc]
    exact second.mirrors.bind fun right => mirrors_sum fun known => ⟨known.1.2, known.2⟩
  | .step op inner => by
    rw [elaborate, elaborate]
    exact inner.mirrors.bind fun value => mirrors_record fun known quiet =>
      (checkStep_fair op value).proper known.2 quiet
  | .binary sign before behind => by
    rw [elaborate, elaborate]
    exact before.mirrors.bind fun left => behind.mirrors.bind fun right =>
      mirrors_record fun known quiet => sign.check_fair.proper known.1.2 known.2 quiet

/-- Arguments are spelled out one by one. -/
theorem SpelledOut.mirrorsAll {phrases others : List Phrase} {given : Prop} :
    List.Forall₂ SpelledOut phrases others →
      Mirrors given (∀ value ∈ ·, value.Proper) (elaborateAll phrases) (elaborateAll others)
  | .nil => by
    rw [elaborateAll]
    exact mirrors_pure fun _ => nofun
  | .cons head tail => by
    rw [elaborateAll, elaborateAll]
    exact head.mirrors.bind fun first => (SpelledOut.mirrorsAll tail).bind fun rest =>
      mirrors_pure fun known => List.forall_mem_cons.mpr ⟨known.1.2, known.2⟩

end

end Phrase

end SmallC
