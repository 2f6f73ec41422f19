import SmallC.Proofs.Execution.Oracle
import SmallC.Proofs.Execution.Simulation
import SmallC.Proofs.Typing.Compilation

/-! A function runs in the order of its source, and then leaves by its own epilogue. -/

namespace SmallC

/-- The assembly of functions that have been written one behind the other. -/
inductive Generated.Written : Generated → Prop where
  /-- Nothing has been written yet. -/
  | none : Written {}
  /-- A function is written behind what is there. -/
  | function (function : Function) (symbols : SymbolTable) {generated : Generated}
    (before : Written generated) : Written (generateFunction function symbols generated).2

/-- Functions written one behind the other define every label exactly once. -/
theorem Generated.Written.labelled {generated : Generated} (written : generated.Written) :
    generated.Labelled := by
  -- Nothing written defines no label, and every function keeps the count.
  induction written with
  | none =>
    intro label
    rw [if_neg (Nat.not_lt_zero _)]
    rfl
  | function function symbols _ ih => exact generateFunction_labelled function symbols ih

/-- The code that gives the frame of a function back. -/
def leave : Code :=
  [operate .movl [Register.ebp, Register.esp], operate .popl [Register.ebp]]

variable {σ : Type} (machine : Machine σ)

namespace Function

variable (function : Function) (symbols : SymbolTable)

/-- The body of a function runs, and then the frame is given back, however the body ended. -/
def runs (nextLabel : Nat) : Behaviour σ := fun before how after =>
  let body := Statement.runsAll machine { function := ⟨nextLabel⟩ } function.body
    (function.entry symbols nextLabel)
  (∃ ending between, (ending = .onward ∨ ending = .returned) ∧ body before ending between ∧
    ((machine.visit leave).andThen (.stop .returned)) between how after) ∨
  ((how = .left ∨ how = .stuck) ∧ body before how after)

/-- The items of a unit once the function is written, and whatever is written later. -/
def unit (generated : Generated) (later : List Item) : List Item :=
  (generateFunction function symbols generated).2.items ++ later

/-- What is written before the body of the function. -/
def preceding (generated : Generated) : List Item :=
  generated.items ++ prologue (symbols.nameOf function.symbol)

/-- The place where the body of the function starts. -/
def start (generated : Generated) : Nat := (function.preceding symbols generated).length

/-- The place behind the body of the function. -/
def stop (generated : Generated) : Nat :=
  function.start symbols generated + (function.bodyCode symbols generated.nextLabel).length

end Function

/-- Where a function has ended: at its return, or where it is stuck. -/
def Machine.Leaves (items : List Item) (last : Nat) : Ending → Nat × σ → Prop
  | .returned, (place, _) => place = last ∧ items[last]? = some (operate .ret [])
  | .stuck, here => machine.Stuck items here
  | .onward, _ | .left, _ => False

namespace Function

variable (function : Function) (symbols : SymbolTable) (generated : Generated) (later : List Item)

/-- The body is followed by the end of the function, where the frame is given back. -/
theorem unit_eq : ∃ rest, function.unit symbols generated later =
    function.preceding symbols generated ++ function.bodyCode symbols generated.nextLabel
      ++ .blank :: .mark ⟨generated.nextLabel⟩ :: (leave ++ operate .ret [] :: rest) := by
  simp only [unit, generateFunction_eq, preceding, epilogue, leave, List.append_assoc,
    List.cons_append, List.nil_append]
  exact ⟨_, rfl⟩

/-- No label of the body is defined before it. -/
theorem defined_preceding (labelled : generated.Labelled) (label : Label) :
    defined (function.preceding symbols generated) label =
      if label.number < generated.nextLabel then 1 else 0 := by
  rw [preceding, defined_append, defined_prologue]
  exact labelled label

/-- The body stands in the unit with its labels found there. -/
theorem placed_bodyCode (labelled : generated.Labelled) :
    Placed (function.unit symbols generated later) (function.start symbols generated)
      (function.bodyCode symbols generated.nextLabel) (function.stop symbols generated) := by
  obtain ⟨rest, unit⟩ := function.unit_eq symbols generated later
  rw [unit]
  refine placed_between ?_
  intro label more
  have before := function.defined_preceding symbols generated labelled label
  have inside := function.defined_bodyCode symbols generated.nextLabel label
  rw [defined_append]
  -- A label of the body is handed out after all those written before.
  split at before <;> split at inside <;> omega

/-- The end of the function is found behind the body. -/
theorem placeOf_end (labelled : generated.Labelled) :
    placeOf (function.unit symbols generated later) ⟨generated.nextLabel⟩ =
      some (function.stop symbols generated + 1) := by
  obtain ⟨rest, unit⟩ := function.unit_eq symbols generated later
  have before := function.defined_preceding symbols generated labelled ⟨generated.nextLabel⟩
  have inside := function.defined_bodyCode symbols generated.nextLabel ⟨generated.nextLabel⟩
  -- The label of the end is handed out after those before and before those of the body.
  have early : ¬ (generated.nextLabel + 1 ≤ generated.nextLabel ∧
      generated.nextLabel < (function.last symbols generated.nextLabel).nextLabel) :=
    fun bounds => Nat.lt_irrefl _ bounds.1
  rw [if_neg (Nat.lt_irrefl _)] at before
  rw [if_neg early] at inside
  have absent : defined (function.preceding symbols generated
      ++ function.bodyCode symbols generated.nextLabel ++ [.blank]) ⟨generated.nextLabel⟩ = 0 := by
    have blank : defined [Item.blank] ⟨generated.nextLabel⟩ = 0 := rfl
    rw [defined_append, defined_append]
    omega
  rw [unit, List.append_cons _ Item.blank, placeOf_append absent rfl, stop, start,
    List.length_append, List.length_append]
  rfl

/-- The items behind the body are the epilogue of the function. -/
theorem unit_epilogue : ∃ rest, ∀ index : Nat,
    (function.unit symbols generated later)[function.stop symbols generated + index]? =
      (.blank :: .mark ⟨generated.nextLabel⟩ :: (leave ++ operate .ret [] :: rest))[index]? := by
  obtain ⟨rest, unit⟩ := function.unit_eq symbols generated later
  refine ⟨rest, ?_⟩
  intro index
  rw [unit, stop, start, ← List.length_append, List.getElem?_append_right (Nat.le_add_right _ _),
    Nat.add_sub_cancel_left]

/-- From the end of the body, the frame is given back and the function returns. -/
theorem leaves {machine : Machine σ} {how : Ending} {before after : σ}
    (leaving : ((machine.visit leave).andThen (.stop .returned)) before how after) :
    ∃ place, machine.Steps (function.unit symbols generated later)
        (function.stop symbols generated + 1, before) (place, after) ∧
      machine.Leaves (function.unit symbols generated later)
        (function.stop symbols generated + 4) how (place, after) := by
  -- Behind its label, the epilogue is straight code and a return.
  obtain ⟨rest, behind⟩ := function.unit_epilogue symbols generated later
  have straight : Straight leave := straight_cons rfl (straight_cons rfl straight_nil)
  have placed : Placed (function.unit symbols generated later)
      (function.stop symbols generated + 2) leave (function.stop symbols generated + 4) := by
    rw [leave, placed_operate, placed_operate, placed_nil]
    exact ⟨behind 2, behind 3, rfl⟩
  have enters : machine.Steps (function.unit symbols generated later) _ _ :=
    Machine.steps_mark (behind 1) before
  have visits : machine.Follows (function.unit symbols generated later)
      { function := ⟨generated.nextLabel⟩ } _ _ (machine.visit leave) := .visit straight placed
  rcases leaving with ⟨between, visited, rfl, rfl⟩ | ⟨elsewhere, visited⟩
  · obtain ⟨place, reached, rfl⟩ := visits _ _ _ visited
    exact ⟨_, enters.trans reached, rfl, behind 4⟩
  · obtain ⟨place, reached, arrives⟩ := visits _ _ _ visited
    rcases Machine.visit_ending visited with rfl | rfl
    · exact absurd rfl elsewhere
    · exact ⟨place, enters.trans reached, arrives⟩

/-- A function runs in the order of its source and leaves by its own epilogue. -/
theorem follows {machine : Machine σ} (labelled : generated.Labelled)
    (contained : ∀ statement ∈ function.body, statement.Contained false) {before after : σ}
    {how : Ending} (ran : function.runs machine symbols generated.nextLabel before how after) :
    ∃ place, machine.Steps (function.unit symbols generated later)
        (function.start symbols generated, before) (place, after) ∧
      machine.Leaves (function.unit symbols generated later)
        (function.stop symbols generated + 4) how (place, after) := by
  have ended := function.placeOf_end symbols generated later labelled
  have found : Exits.Found (function.unit symbols generated later)
      { function := ⟨generated.nextLabel⟩ } := ⟨⟨_, ended⟩, by simp⟩
  have body : machine.Follows (function.unit symbols generated later) _ _ _ _ :=
    Statement.followsAll_of
      (fun statement member => Statement.follows (contained statement member) rfl found)
      (function.entry symbols generated.nextLabel)
      (function.placed_bodyCode symbols generated later labelled)
  rcases ran with ⟨ending, between, ends, ran, leaving⟩ | ⟨ends, ran⟩
  · obtain ⟨place, reached, arrives⟩ := body _ _ _ ran
    obtain ⟨last, left, leaves⟩ := function.leaves symbols generated later leaving
    refine ⟨last, reached.trans ?_, leaves⟩
    -- Behind the body only an empty line comes before the end of the function.
    rcases ends with rfl | rfl
    · obtain rfl : place = function.stop symbols generated := arrives
      obtain ⟨rest, behind⟩ := function.unit_epilogue symbols generated later
      have passes : machine.step (function.unit symbols generated later)
          (function.stop symbols generated, between) =
            some (function.stop symbols generated + 1, between) := by
        have here := behind 0
        simp only [Nat.add_zero, List.getElem?_cons_zero] at here
        simp [Machine.step, here]
      exact (Machine.Steps.single passes).trans left
    · have same : placeOf (function.unit symbols generated later) ⟨generated.nextLabel⟩ =
          some place := arrives
      rw [ended] at same
      cases same
      exact left
  · obtain ⟨place, reached, arrives⟩ := body _ _ _ ran
    refine ⟨place, reached, ?_⟩
    rcases ends with rfl | rfl
    · -- The body is not inside a loop.
      obtain ⟨label, inside, -⟩ := arrives
      cases inside
    · exact arrives

/-- Whatever outcomes are listed, the function has a run of its source. -/
theorem goes (nextLabel : Nat) (outcomes : List Bool) :
    ∃ how course, function.runs oracle symbols nextLabel ⟨outcomes, []⟩ how course := by
  -- The body has a run for the outcomes, and however it ends the function goes on from there.
  obtain ⟨ending, between, ran, -⟩ := Statement.goesAll function.body { function := ⟨nextLabel⟩ }
    (function.entry symbols nextLabel) ⟨outcomes, []⟩
  obtain ⟨how, after, leaving, -⟩ :=
    (Behaviour.goes_visit leave).andThen (Behaviour.goes_stop .returned) between
  cases ending with
  | onward => exact ⟨how, after, .inl ⟨.onward, between, .inl rfl, ran, leaving⟩⟩
  | returned => exact ⟨how, after, .inl ⟨.returned, between, .inr rfl, ran, leaving⟩⟩
  | left => exact ⟨.left, between, .inr ⟨.inl rfl, ran⟩⟩
  | stuck => exact ⟨.stuck, between, .inr ⟨.inr rfl, ran⟩⟩

end Function

/-- A run of the oracle comes to nothing only when no outcome is left. -/
theorem outcomes_of_stuck {items : List Item} {here : Nat × Course}
    (stuck : oracle.Stuck items here) : here.2.outcomes = [] := by
  -- Every instruction acts, so only a test without an outcome is stuck.
  cases stuck with
  | act _ _ unable => cases unable
  | @jump place course _ _ _ _ unknown =>
    obtain ⟨outcomes, visited⟩ := course
    cases outcomes with
    | nil => rfl
    | cons outcome rest => cases unknown

/-- However conditions come out, a function whose breaks are inside loops runs in the order of its
source and leaves by its own epilogue. -/
theorem generateFunction_follows (function : Function)
    (contained : ∀ statement ∈ function.body, statement.Contained false) (symbols : SymbolTable)
    {generated : Generated} (written : generated.Written) (later : List Item) :
    let items := function.unit symbols generated later
    let start := function.start symbols generated
    let last := function.stop symbols generated + 4
    -- Every list of outcomes has a run of the source, which returns unless they are used up.
    (∀ outcomes, ∃ how course,
      function.runs oracle symbols generated.nextLabel ⟨outcomes, []⟩ how course ∧
        (how = .returned ∨ course.outcomes = [])) ∧
    -- Whatever instructions do, the code goes where a run of the source goes.
    ∀ (σ : Type) (machine : Machine σ) (before after : σ) (how : Ending),
      function.runs machine symbols generated.nextLabel before how after →
        ∃ place, machine.Steps items (start, before) (place, after) ∧
          machine.Leaves items last how (place, after) := by
  -- The run that exists is followed, which rules out all endings but two.
  refine ⟨?_, fun σ machine before after how =>
    function.follows symbols generated later written.labelled contained⟩
  intro outcomes
  obtain ⟨how, course, ran⟩ := function.goes symbols generated.nextLabel outcomes
  obtain ⟨place, -, left⟩ :=
    function.follows symbols generated later written.labelled contained ran
  refine ⟨how, course, ran, ?_⟩
  cases how with
  | returned => exact .inl rfl
  | stuck => exact .inr (outcomes_of_stuck left)
  | onward | left => exact left.elim

/-- A loop that is left as soon as two tests hold, and a return behind it. -/
def searching : Function where
  symbol := ⟨0, 0⟩
  parameters := 0
  scope := 1
  body := [
    .whileLoop (.int 1) (.block 2 [
      .ifThen (.binary .logicalAnd (.int 1) (.int 0) .int) .breakLoop]),
    .returnValue (.int 3)]

/-- The code of the loop goes where its source goes when the second test holds at last. -/
theorem generateFunction_follows_searching :
    (∀ statement ∈ searching.body, statement.Contained false) ∧ Generated.Written {} ∧
      ∃ how course place,
        let start : Course := ⟨[true, true, false, false, true, true, true, true], []⟩
        searching.runs oracle {} 0 start how course ∧
          oracle.Steps (searching.unit {} {} []) (searching.start {} {}, start) (place, course) ∧
          oracle.Leaves (searching.unit {} {} []) (searching.stop {} {} + 4) how (place, course) := by
  have contained : ∀ statement ∈ searching.body, statement.Contained false := by
    intro statement member
    simp only [searching, List.mem_cons, List.not_mem_nil, or_false] at member
    rcases member with rfl | rfl
    · refine .whileLoop _ (.block 2 ?_)
      intro statement inside
      obtain rfl := List.mem_singleton.mp inside
      exact .ifThen _ .breakLoop
    · exact .returnValue _
  obtain ⟨some, follows⟩ := generateFunction_follows searching contained {} .none []
  obtain ⟨how, course, ran, -⟩ := some [true, true, false, false, true, true, true, true]
  obtain ⟨place, steps, leaves⟩ := follows Course oracle _ _ _ ran
  exact ⟨contained, .none, how, course, place, ran, steps, leaves⟩

/-- What is written before a function of a compiled source are functions. -/
theorem handedOver_written {options : Options} {file source : String} {compilation : Compilation}
    (compiled : compile options file source = .ok compilation) :
    ∀ entry ∈ handedOver options source, entry.generated.Written := by
  -- Reading hands functions on one by one, each behind what has been written by then.
  obtain ⟨tokens, -, done, handed, -⟩ := compile_outcome compiled
  rw [handed]
  refine (@readDeclarations_preserves _ (recording options.checkOnly) (fun _ output =>
    output.1.Written ∧ ∀ entry ∈ output.2, entry.generated.Written) ?_ ?_ _ _ _ ?_ done).2
  · exact fun _ _ _ good _ => good
  · intro reader next function output good read
    refine ⟨?_, ?_⟩
    · unfold recording generating
      dsimp only
      split
      · exact good.1
      · exact .function function _ good.1
    · intro entry member
      rcases List.mem_append.mp member with before | here
      · exact good.2 entry before
      · rw [List.mem_singleton.mp here]
        exact good.1
  · exact ⟨.none, by simp⟩

/-- A source that compiles without a diagnostic has only functions whose breaks are inside loops. -/
theorem handedOver_contained {options : Options} {file source : String}
    {compilation : Compilation} (compiled : compile options file source = .ok compilation)
    (silent : compilation.diagnostics = []) : ∀ entry ∈ handedOver options source,
      ∀ statement ∈ entry.function.body, statement.Contained false := by
  obtain ⟨checker, vouches, quiet⟩ := vouches_compile compiled silent
  intro entry member statement inside
  obtain ⟨_, _, _, _, typed⟩ := vouches.typed quiet entry member
  exact (typed.body statement inside).contained

end SmallC
