import SmallC.Grammar.Declarations
import SmallC.Proofs.Typing.Growth

/-! Reading on from a sound checker ends in a sound one: how this passes through each step. -/

namespace SmallC

namespace Reading

variable {α β : Type}

/-- A step that leaves the checker alone, but for the place that reports name. -/
def Idle (action : Reading α) : Prop :=
  ∀ reader value next, action reader = .ok value next → reader.checker.Beside next.checker

/-- Reading from a sound checker extends it to a sound one and gives a good value. -/
def Carries (start : Checker) (action : Reading α) (good : α → Checker → Prop) : Prop :=
  start.Sound → ∀ reader value next, start.Beside reader.checker → action reader = .ok value next →
    start.Extends next.checker ∧ next.checker.Sound ∧ good value next.checker

/-- What is good stays so when the checker is extended. -/
def Lasting (good : α → Checker → Prop) : Prop :=
  ∀ value old new, old.Extends new → good value old → good value new

/-- Two steps that succeed together succeed one after the other. -/
theorem bind_ok {action : Reading α} {next : α → Reading β} {reader final : Reader} {value : β}
    (done : (action >>= next) reader = .ok value final) :
    ∃ middle state, action reader = .ok middle state ∧ next middle state = .ok value final := by
  -- A sequence succeeds only if its first action does.
  change EStateM.bind action next reader = .ok value final at done
  unfold EStateM.bind at done
  cases first : action reader with
  | ok middle state => exact ⟨middle, state, rfl, by rwa [first] at done⟩
  | error failure state => simp [first] at done

/-- A value that is returned leaves the reader alone. -/
theorem pure_ok {value result : α} {reader final : Reader}
    (done : (pure value : Reading α) reader = .ok result final) :
    result = value ∧ final = reader := by
  cases done
  exact ⟨rfl, rfl⟩

/-- A step whose value is dropped succeeds when the step does. -/
theorem discard_ok {action : Reading α} {reader final : Reader} {value : PUnit}
    (done : discard action reader = .ok value final) :
    ∃ result, action reader = .ok result final := by
  change EStateM.map (Function.const α PUnit.unit) action reader = .ok value final at done
  unfold EStateM.map at done
  cases first : action reader with
  | ok result state =>
    rw [first] at done
    cases done
    exact ⟨result, rfl⟩
  | error failure state => simp [first] at done

/-- The checker's own steps always succeed. -/
theorem act_ok {action : Checker → α × Checker} {reader final : Reader} {value : α}
    (done : act action reader = .ok value final) :
    value = (action reader.checker).1 ∧ final.checker = (action reader.checker).2 := by
  cases done
  exact ⟨rfl, rfl⟩

/-- Returning a value is idle. -/
theorem idle_pure (value : α) : Idle (pure value) := by
  intro reader result next done
  obtain ⟨-, rfl⟩ := pure_ok done
  exact .refl _

/-- Looking at the reader is idle. -/
theorem idle_get : Idle get := by
  intro reader result next done
  cases done
  exact .refl _

/-- A failure is idle, for it gives no value. -/
theorem idle_throw (failure : Failure) : Idle (throw failure : Reading α) := by
  intro reader result next done
  cases done

/-- Idle steps follow each other idly. -/
theorem Idle.bind {action : Reading α} {next : α → Reading β} (first : Idle action)
    (second : ∀ value, Idle (next value)) : Idle (action >>= next) := by
  intro reader value final done
  obtain ⟨middle, state, begun, ended⟩ := bind_ok done
  exact (first _ _ _ begun).trans (second _ _ _ _ ended)

/-- Dropping the value of an idle step is idle. -/
theorem Idle.discard {action : Reading α} (idle : Idle action) :
    Idle (Functor.discard action) := by
  intro reader value final done
  obtain ⟨result, done⟩ := discard_ok done
  exact idle _ _ _ done

/-- Looking at the kind of a token is idle. -/
theorem idle_kind : Idle kind :=
  idle_get.bind fun _ => idle_pure _

/-- Taking a token is idle. -/
theorem idle_advance : Idle advance := by
  intro reader value next done
  cases done
  exact ⟨_, rfl⟩

/-- Failing at a token is idle. -/
theorem idle_unexpected : Idle (unexpected : Reading α) :=
  idle_get.bind fun _ => idle_throw _

/-- Taking a token of a kind is idle. -/
theorem idle_expect (wanted : TokenKind) : Idle (expect wanted) := by
  refine idle_kind.bind fun found => ?_
  split
  · exact idle_advance
  · exact idle_unexpected

/-- Reading items is idle when reading each is. -/
theorem idle_whileAt (test : TokenKind → Bool) {item : Reading α} (idle : Idle item)
    (clock : List Token) : Idle (whileAt test item clock) := by
  -- The clock bounds the turns, and each of them is idle.
  induction clock with
  | nil =>
    refine idle_kind.bind fun found => ?_
    split
    · exact idle_unexpected
    · exact idle_pure _
  | cons _ clock ih =>
    refine idle_kind.bind fun found => ?_
    split
    · exact idle.bind fun _ => ih.bind fun _ => idle_pure _
    · exact idle_pure _

/-- Reading a name is idle. -/
theorem idle_name : Idle name :=
  (idle_expect _).bind fun _ => idle_pure _

/-- Reading a whole number is idle. -/
theorem idle_wholeNumber : Idle wholeNumber := by
  refine (idle_expect _).bind fun token => ?_
  split
  · exact idle_pure _
  · exact idle_throw _

/-- Reading a specifier is idle. -/
theorem idle_specifier : Idle specifier := by
  refine idle_kind.bind fun found => ?_
  split
  · exact idle_advance.discard.bind fun _ => idle_pure _
  · exact idle_unexpected

/-- Counting stars is idle. -/
theorem idle_stars : Idle stars :=
  (idle_get.bind fun _ => idle_whileAt _ idle_advance _).bind fun _ => idle_pure _

/-- Reading the length of an array is idle. -/
theorem idle_arrayLength : Idle arrayLength := by
  refine idle_get.bind fun reader => idle_wholeNumber.bind fun length => ?_
  split
  · exact idle_throw _
  · exact idle_pure _

/-- Reading the brackets of an array is idle. -/
theorem idle_arrayType (specifier : Specifier) (indirection : Nat) (name : String) :
    Idle (arrayType specifier indirection name) := by
  refine (idle_expect _).discard.bind fun _ => idle_get.bind fun _ =>
    idle_arrayLength.bind fun length => (idle_expect _).discard.bind fun _ => ?_
  split
  · exact idle_pure _
  · exact idle_throw _

/-- Reading the type of a variable is idle. -/
theorem idle_variableType (specifier : Specifier) (indirection : Nat) (name : String) :
    Idle (variableType specifier indirection name) := by
  refine idle_kind.bind fun found => ?_
  split
  · exact idle_arrayType _ _ _
  · exact idle_pure _

/-- Variables are never declared with the error type. -/
theorem variableType_ne_error {specifier : Specifier} {indirection : Nat} {name : String}
    {reader next : Reader} {type : Ty}
    (done : variableType specifier indirection name reader = .ok type next) : type ≠ .error := by
  obtain ⟨found, state, -, done⟩ := bind_ok done
  split at done
  · obtain ⟨_, _, -, done⟩ := bind_ok done
    obtain ⟨_, _, -, done⟩ := bind_ok done
    obtain ⟨length, _, -, done⟩ := bind_ok done
    obtain ⟨_, _, -, done⟩ := bind_ok done
    cases fits : Ty.sizedArray? specifier indirection length with
    | none =>
      rw [fits] at done
      cases done
    | some sized =>
      -- An array of a length that fits is an array.
      rw [fits] at done
      obtain ⟨rfl, -⟩ := pure_ok done
      unfold Ty.sizedArray? at fits
      split at fits
      · cases fits
        simp
      · contradiction
  · obtain ⟨rfl, -⟩ := pure_ok done
    simp

variable {start : Checker} {good : α → Checker → Prop} {well : β → Checker → Prop}

/-- A value may be returned that is good wherever the place of reports is. -/
theorem Carries.settle {value : α} (holds : ∀ next, start.Beside next → good value next) :
    Carries start (Pure.pure value) good := by
  intro sound reader result next here done
  obtain ⟨rfl, rfl⟩ := pure_ok done
  exact ⟨here.extends, here.sound sound, holds _ here⟩

/-- A value may be returned that is good and stays so. -/
theorem Carries.pure {value : α} (lasting : Lasting good) (holds : good value start) :
    Carries start (Pure.pure value) good :=
  .settle fun _ here => lasting _ _ _ here.extends holds

/-- What follows a step starts from what the step has carried. -/
theorem Carries.bind {action : Reading α} {next : α → Reading β}
    (first : Carries start action good)
    (second : ∀ value checker, start.Extends checker → good value checker →
      Carries checker (next value) well) : Carries start (action >>= next) well := by
  -- The second reading starts from the checker that the first one leaves.
  intro sound reader value final here done
  obtain ⟨middle, state, begun, ended⟩ := bind_ok done
  obtain ⟨extended, kept, holds⟩ := first sound _ _ _ here begun
  obtain ⟨further, settled, result⟩ :=
    second middle state.checker extended holds kept _ _ _ (.refl _) ended
  exact ⟨extended.trans further, settled, result⟩

/-- What follows an idle step starts where the step did. -/
theorem Carries.idle {action : Reading α} {next : α → Reading β} (first : Idle action)
    (second : ∀ value, Carries start (next value) well) : Carries start (action >>= next) well := by
  intro sound reader value final here done
  obtain ⟨middle, state, begun, ended⟩ := bind_ok done
  exact second middle sound _ _ _ (here.trans (first _ _ _ begun)) ended

/-- An idle step carries the checker on. -/
theorem Idle.carries {action : Reading α} (idle : Idle action) :
    Carries start action fun _ _ => True := by
  intro sound reader value next here done
  have moved := here.trans (idle _ _ _ done)
  exact ⟨moved.extends, moved.sound sound, trivial⟩

/-- What follows a look at the reader may use what the checker is. -/
theorem Carries.get {next : Reader → Reading β}
    (second : ∀ reader, start.Beside reader.checker → Carries start (next reader) well) :
    Carries start (get >>= next) well := by
  intro sound reader value final here done
  obtain ⟨middle, state, begun, ended⟩ := bind_ok done
  cases begun
  exact second _ here sound _ _ _ here ended

/-- Dropping a value drops what is good about it. -/
theorem Carries.discard {action : Reading α} (carries : Carries start action good) :
    Carries start (Functor.discard action) fun _ _ => True := by
  intro sound reader value next here done
  obtain ⟨result, done⟩ := discard_ok done
  obtain ⟨extended, kept, -⟩ := carries sound _ _ _ here done
  exact ⟨extended, kept, trivial⟩

/-- A step that always fails carries anything. -/
theorem Carries.fails {action : Reading α} (fails : ∀ reader value next, action reader ≠ .ok value next) :
    Carries start action good := by
  intro sound reader value next here done
  exact absurd done (fails _ _ _)

/-- Failing at a token carries anything. -/
theorem Carries.unexpected : Carries start (unexpected : Reading α) good := by
  refine .fails ?_
  intro reader value next done
  obtain ⟨_, _, -, done⟩ := bind_ok done
  cases done

/-- Failing at a depth carries anything. -/
theorem Carries.tooDeep : Carries start (tooDeep : Reading α) good := by
  refine .fails ?_
  intro reader value next done
  obtain ⟨_, _, -, done⟩ := bind_ok done
  cases done

/-- A step of the checker that extends it soundly carries what it gives. -/
theorem Carries.act {action : Checker → α × Checker}
    (extended : ∀ checker : Checker, checker.Extends (action checker).2)
    (settled : ∀ checker : Checker, checker.Sound → (action checker).2.Sound)
    (holds : ∀ checker, start.Beside checker → checker.Sound →
      good (action checker).1 (action checker).2) : Carries start (act action) good := by
  intro sound reader value next here done
  obtain ⟨rfl, ended⟩ := act_ok done
  rw [ended]
  exact ⟨here.extends.trans (extended _), settled _ (here.sound sound),
    holds _ here (here.sound sound)⟩

/-- Items that carry what lasts are all good in the end. -/
theorem Carries.whileAt (test : TokenKind → Bool) {item : Reading α} (lasting : Lasting good)
    (each : ∀ checker, start.Extends checker → Carries checker item good) (clock : List Token) :
    Carries start (whileAt test item clock) fun values checker =>
      ∀ value ∈ values, good value checker := by
  -- Every item is read from an extension of the checker at the start.
  induction clock generalizing start with
  | nil =>
    refine .idle idle_kind fun found => ?_
    split
    · exact .unexpected
    · refine .pure ?_ (by simp)
      intro values old new extended all value member
      exact lasting _ _ _ extended (all value member)
  | cons _ clock ih =>
    have all : Lasting fun (values : List α) checker => ∀ value ∈ values, good value checker := by
      intro values old new extended all value member
      exact lasting _ _ _ extended (all value member)
    refine .idle idle_kind fun found => ?_
    split
    · refine .bind (each start (.refl _)) fun first checker extended holds => ?_
      intro sound reader value next here done
      obtain ⟨others, state, begun, ended⟩ := bind_ok done
      obtain ⟨further, kept, rest⟩ :=
        ih (fun later more => each later (extended.trans more)) sound _ _ _ here begun
      obtain ⟨rfl, rfl⟩ := pure_ok ended
      refine ⟨further, kept, ?_⟩
      intro value member
      rcases List.mem_cons.mp member with rfl | member
      · exact lasting _ _ _ further holds
      · exact rest value member
    · exact .pure all (by simp)

/-- Items up to the first token that fails the test are all good in the end. -/
theorem Carries.many (test : TokenKind → Bool) {item : Reading α} (lasting : Lasting good)
    (each : ∀ checker, start.Extends checker → Carries checker item good) :
    Carries start (many test item) fun values checker => ∀ value ∈ values, good value checker :=
  .get fun _ _ => .whileAt test lasting each _

/-- Items between commas are all good in the end. -/
theorem Carries.commaSeparated {item : Reading α} (lasting : Lasting good)
    (each : ∀ checker, start.Extends checker → Carries checker item good) :
    Carries start (commaSeparated item) fun values checker =>
      ∀ value ∈ values, good value checker := by
  -- The first value holds, and each further one is read behind a comma.
  refine .bind (each start (.refl _)) fun first checker extended holds => ?_
  have rest : ∀ later, checker.Extends later →
      Carries later (do Functor.discard advance; item) good := by
    intro later more
    exact .idle idle_advance.discard fun _ => each later (extended.trans more)
  refine .bind (.many _ lasting rest) fun others later more all => ?_
  refine .pure ?_ ?_
  · intro values old new extended all value member
    exact lasting _ _ _ extended (all value member)
  · intro value member
    rcases List.mem_cons.mp member with rfl | member
    · exact lasting _ _ _ more holds
    · exact all value member

/-- The body of a loop is read with one loop more around it. -/
theorem Carries.insideLoop {body : Reading α} (carries : Carries start.enterLoop body good)
    {well : α → Checker → Prop}
    (closing : ∀ value checker, start.enterLoop.Extends checker → good value checker →
      well value checker.leaveLoop) : Carries start (insideLoop body) well := by
  intro sound reader value next here done
  have inside : start.enterLoop.Beside reader.checker.enterLoop := by
    obtain ⟨position, moved⟩ := here
    exact ⟨position, by rw [moved]; rfl⟩
  unfold Reading.insideLoop at done
  cases read : body { reader with checker := reader.checker.enterLoop } with
  | error failure state => simp [read] at done
  | ok result state =>
    rw [read] at done
    cases done
    obtain ⟨extended, kept, holds⟩ := carries sound.enterLoop _ _ _ inside read
    refine ⟨⟨⟨extended.quiet, extended.keeps⟩, extended.active, ?_, extended.returned⟩,
      kept.leaveLoop, closing _ _ extended holds⟩
    -- The loop that was entered is the one that is left.
    have counted : state.checker.loops = start.loops + 1 := extended.loops
    simp [Checker.leaveLoop, counted]

end Reading

end SmallC
