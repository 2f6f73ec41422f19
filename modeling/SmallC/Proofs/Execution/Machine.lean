import Mathlib.Logic.Relation
import SmallC.Proofs.Lowering.Labels

/-! Machines: how the items of a unit run, whatever instructions do and tests decide. -/

namespace SmallC

/-- The place of a label among items. -/
def placeOf (items : List Item) (label : Label) : Option Nat :=
  items.findIdx? fun item => item.label? = some label

/-- What instructions do to a state, and which way its conditional jumps go. -/
structure Machine (σ : Type) where
  /-- The state after an instruction, unless it cannot be run. -/
  act : Instruction → σ → Option σ
  /-- Whether the value compared last is different from zero, unless that is not known. -/
  nonzero : σ → Option (Bool × σ)

/-- How the source goes on after one of its pieces. -/
inductive Ending where
  /-- With what follows the piece. -/
  | onward
  /-- Behind the innermost loop. -/
  | left
  /-- At the end of the function. -/
  | returned
  /-- Not at all, since an instruction or a test cannot be run. -/
  | stuck
  deriving DecidableEq, Repr

/-- How a piece of source runs: from a state, with an ending, to a state. -/
abbrev Behaviour (σ : Type) := σ → Ending → σ → Prop

namespace Behaviour

variable {σ : Type}

/-- Nothing is done, and control goes as the ending says. -/
def stop (ending : Ending) : Behaviour σ := fun before how after => how = ending ∧ after = before

/-- The second piece runs if the first one goes onward. -/
def andThen (first second : Behaviour σ) : Behaviour σ := fun before how after =>
  (∃ between, first before .onward between ∧ second between how after) ∨
    (how ≠ .onward ∧ first before how after)

end Behaviour

namespace Machine

variable {σ : Type} (machine : Machine σ)

/-- The instructions of straight code act in order. -/
def visit : Code → Behaviour σ
  | [] => .stop .onward
  | .code instruction :: rest => fun before how after =>
    match machine.act instruction before with
    | some between => visit rest between how after
    | none => how = .stuck ∧ after = before
  | _ :: rest => visit rest

/-- One of two pieces runs, as the value compared last decides. -/
def choose (yes no : Behaviour σ) : Behaviour σ := fun before how after =>
  match machine.nonzero before with
  | some (true, between) => yes between how after
  | some (false, between) => no between how after
  | none => how = .stuck ∧ after = before

/-- A loop tests, runs its body and then the step after a turn, and tests again. -/
inductive Repeats (tested body next : Behaviour σ) : Behaviour σ where
  /-- The test cannot be computed. -/
  | untested {before after : σ} {how : Ending} (ends : how ≠ .onward)
    (test : tested before how after) : Repeats tested body next before how after
  /-- The test has no outcome. -/
  | undecided {before after : σ} (test : tested before .onward after)
    (unknown : machine.nonzero after = none) : Repeats tested body next before .stuck after
  /-- The test fails, and the loop is over. -/
  | finished {before between after : σ} (test : tested before .onward between)
    (fails : machine.nonzero between = some (false, after)) :
    Repeats tested body next before .onward after
  /-- The body leaves the loop. -/
  | left {before between inside after : σ} (test : tested before .onward between)
    (holds : machine.nonzero between = some (true, inside)) (turn : body inside .left after) :
    Repeats tested body next before .onward after
  /-- The body ends the function or is stuck. -/
  | out {before between inside after : σ} {how : Ending} (ends : how = .returned ∨ how = .stuck)
    (test : tested before .onward between) (holds : machine.nonzero between = some (true, inside))
    (turn : body inside how after) : Repeats tested body next before how after
  /-- The step after a turn does not go onward. -/
  | unstepped {before between inside done after : σ} {how : Ending} (ends : how ≠ .onward)
    (test : tested before .onward between) (holds : machine.nonzero between = some (true, inside))
    (turn : body inside .onward done) (stepped : next done how after) :
    Repeats tested body next before how after
  /-- A whole turn is followed by the loop again. -/
  | again {before between inside done ready after : σ} {how : Ending}
    (test : tested before .onward between) (holds : machine.nonzero between = some (true, inside))
    (turn : body inside .onward done) (stepped : next done .onward ready)
    (rest : Repeats tested body next ready how after) : Repeats tested body next before how after

/-- The next place and state, if the item at the place can be run; a return ends the run. -/
def step (items : List Item) : Nat × σ → Option (Nat × σ)
  | (place, state) =>
    match items[place]? with
    | some (.code ⟨.jmp, [.target label]⟩) => (placeOf items label).map (·, state)
    | some (.code ⟨.je, [.target label]⟩) =>
      match machine.nonzero state with
      | some (true, next) => some (place + 1, next)
      | some (false, next) => (placeOf items label).map (·, next)
      | none => none
    | some (.code ⟨.jne, [.target label]⟩) =>
      match machine.nonzero state with
      | some (true, next) => (placeOf items label).map (·, next)
      | some (false, next) => some (place + 1, next)
      | none => none
    | some (.code ⟨.ret, _⟩) => none
    | some (.code instruction) => (machine.act instruction state).map (place + 1, ·)
    -- Labels and empty lines take no time, and nothing else is ever reached.
    | some (.entry _) | some (.mark _) | some .blank => some (place + 1, state)
    | _ => none

/-- A run from one place and state to another. -/
def Steps (items : List Item) : Nat × σ → Nat × σ → Prop :=
  Relation.ReflTransGen fun before after => machine.step items before = some after

/-- Runs come to nothing where an instruction cannot act or a condition has no outcome. -/
inductive Stuck (items : List Item) : Nat × σ → Prop where
  /-- The instruction at the place cannot act. -/
  | act {place : Nat} {state : σ} {instruction : Instruction}
    (here : items[place]? = some (.code instruction)) (straight : instruction.opcode.jumps = false)
    (unable : machine.act instruction state = none) : Stuck items (place, state)
  /-- The jump at the place needs an outcome. -/
  | jump {place : Nat} {state : σ} {opcode : Opcode} {label : Label}
    (here : items[place]? = some (operate opcode [.target label]))
    (conditional : opcode = .je ∨ opcode = .jne) (unknown : machine.nonzero state = none) :
    Stuck items (place, state)

/-- Where a run is whose piece of source has ended in the given way. -/
def Arrives (items : List Item) (exits : Exits) (stop : Nat) : Ending → Nat × σ → Prop
  | .onward, (place, _) => place = stop
  | .left, (place, _) => ∃ label, exits.loop? = some label ∧ placeOf items label = some place
  | .returned, (place, _) => placeOf items exits.function = some place
  | .stuck, here => machine.Stuck items here

/-- From start to stop, the items run as the piece of source does. -/
def Follows (items : List Item) (exits : Exits) (start stop : Nat) (behaviour : Behaviour σ) :
    Prop :=
  ∀ before how after, behaviour before how after → ∃ place,
    machine.Steps items (start, before) (place, after) ∧
      machine.Arrives items exits stop how (place, after)

end Machine

/-- The code stands among the items from start to stop, and its labels are found there. -/
def Placed (items : List Item) : (start : Nat) → Code → (stop : Nat) → Prop
  | start, [], stop => start = stop
  | start, item :: rest, stop =>
    items[start]? = some item ∧ (∀ label, item = .mark label → placeOf items label = some start) ∧
      Placed items (start + 1) rest stop

variable {items : List Item}

/-- Code that stands in two pieces stands piece by piece. -/
theorem placed_append {first second : Code} {start stop : Nat} :
    Placed items start (first ++ second) stop ↔
      ∃ middle, Placed items start first middle ∧ Placed items middle second stop := by
  -- The first piece is walked along, and the second one starts where it ends.
  induction first generalizing start with
  | nil =>
    constructor
    · intro placed
      exact ⟨start, rfl, placed⟩
    · rintro ⟨middle, rfl, placed⟩
      exact placed
  | cons item rest ih =>
    simp only [List.cons_append, Placed, ih]
    constructor
    · rintro ⟨here, labelled, middle, front, back⟩
      exact ⟨middle, ⟨here, labelled, front⟩, back⟩
    · rintro ⟨middle, ⟨here, labelled, front⟩, back⟩
      exact ⟨here, labelled, middle, front, back⟩

/-- An instruction stands where it is, before the rest. -/
theorem placed_operate {opcode : Opcode} {arguments : List Argument} {rest : Code}
    {start stop : Nat} : Placed items start (operate opcode arguments :: rest) stop ↔
      items[start]? = some (operate opcode arguments) ∧ Placed items (start + 1) rest stop := by
  simp [Placed, operate]

/-- A label stands where it is found. -/
theorem placed_mark {label : Label} {rest : Code} {start stop : Nat} :
    Placed items start (.mark label :: rest) stop ↔
      items[start]? = some (.mark label) ∧ placeOf items label = some start ∧
        Placed items (start + 1) rest stop := by
  simp [Placed]

theorem placed_nil {start stop : Nat} : Placed items start [] stop ↔ start = stop := Iff.rfl

/-- A label is found at the first item that defines it. -/
theorem placeOf_append {before rest : List Item} {item : Item} {label : Label}
    (new : defined before label = 0) (here : item.label? = some label) :
    placeOf (before ++ item :: rest) label = some before.length := by
  -- The search passes over what is before and stops at the item.
  have absent : placeOf before label = none := by
    refine List.findIdx?_eq_none_iff.mpr ?_
    simpa [defined, List.countP_eq_zero] using new
  unfold placeOf at *
  simp [List.findIdx?_append, absent, List.findIdx?_cons, here]

/-- Code stands where it is written when its labels are defined nowhere before. -/
theorem placed_between {before code after : List Item}
    (once : ∀ label, 0 < defined code label → defined (before ++ code) label = 1) :
    Placed (before ++ code ++ after) before.length code (before.length + code.length) := by
  -- Walking along the code moves items to what is before, so labels stay defined once.
  induction code generalizing before with
  | nil => exact rfl
  | cons item rest ih =>
    have behind := @ih (before ++ [item]) (by
      intro label more
      have total := once label (by
        rw [← List.singleton_append, defined_append]
        omega)
      rwa [List.append_assoc])
    rw [List.append_assoc before [item], List.length_append] at behind
    refine ⟨by simp, ?_, ?_⟩
    · rintro label rfl
      have total := once label (by simp)
      rw [List.append_assoc]
      refine placeOf_append ?_ rfl
      rw [defined_append, defined_mark, if_pos rfl] at total
      omega
    · rwa [List.length_singleton, Nat.add_assoc, Nat.add_comm 1] at behind

namespace Machine

variable {σ : Type} {machine : Machine σ} {exits : Exits} {start middle stop : Nat}

theorem Steps.refl (here : Nat × σ) : machine.Steps items here here := Relation.ReflTransGen.refl

theorem Steps.trans {first second third : Nat × σ} (early : machine.Steps items first second)
    (late : machine.Steps items second third) : machine.Steps items first third :=
  Relation.ReflTransGen.trans early late

theorem Steps.single {before after : Nat × σ} (stepped : machine.step items before = some after) :
    machine.Steps items before after := Relation.ReflTransGen.single stepped

/-- Labels are passed over. -/
theorem steps_mark {label : Label} (here : items[start]? = some (.mark label)) (state : σ) :
    machine.Steps items (start, state) (start + 1, state) :=
  .single (by simp [step, here])

/-- A jump goes to its label. -/
theorem steps_jump {label : Label}
    (here : items[start]? = some (operate .jmp [.target label]))
    (there : placeOf items label = some stop) (state : σ) :
    machine.Steps items (start, state) (stop, state) :=
  .single (by simp [step, here, operate, there])

/-- An instruction that does not jump acts, and the next place is the next one. -/
theorem step_act {instruction : Instruction} (here : items[start]? = some (.code instruction))
    (straight : instruction.opcode.jumps = false) (state : σ) :
    machine.step items (start, state) =
      (machine.act instruction state).map (start + 1, ·) := by
  obtain ⟨opcode, arguments⟩ := instruction
  cases opcode <;> first | contradiction | simp [step, here]

/-- Where a run is stuck there is no further step. -/
theorem Stuck.step {here : Nat × σ} (stuck : machine.Stuck items here) :
    machine.step items here = none := by
  cases stuck with
  | act here straight unable =>
    rw [step_act here straight, unable]
    rfl
  | jump here conditional unknown =>
    rcases conditional with rfl | rfl <;> simp [Machine.step, here, operate, unknown]

/-- Doing nothing stays where it is. -/
theorem Follows.stay : machine.Follows items exits start start (.stop .onward) := by
  rintro before how after ⟨rfl, rfl⟩
  exact ⟨start, .refl _, rfl⟩

/-- Pieces follow each other. -/
theorem Follows.andThen {first second : Behaviour σ}
    (early : machine.Follows items exits start middle first)
    (late : machine.Follows items exits middle stop second) :
    machine.Follows items exits start stop (first.andThen second) := by
  rintro before how after (⟨between, begun, ended⟩ | ⟨elsewhere, ended⟩)
  · obtain ⟨place, toMiddle, rfl⟩ := early _ _ _ begun
    obtain ⟨last, toEnd, arrives⟩ := late _ _ _ ended
    exact ⟨last, toMiddle.trans toEnd, arrives⟩
  · -- An ending other than going onward does not depend on where the next piece is.
    obtain ⟨place, away, arrives⟩ := early _ _ _ ended
    refine ⟨place, away, ?_⟩
    cases how with
    | onward => exact absurd rfl elsewhere
    | _ => exact arrives

/-- Steps that change no state may be taken before a piece. -/
theorem Follows.after {behaviour : Behaviour σ}
    (steps : ∀ state, machine.Steps items (start, state) (middle, state))
    (follows : machine.Follows items exits middle stop behaviour) :
    machine.Follows items exits start stop behaviour := by
  intro before how after runs
  obtain ⟨place, reached, arrives⟩ := follows _ _ _ runs
  exact ⟨place, (steps before).trans reached, arrives⟩

/-- Steps that change no state may be taken behind a piece. -/
theorem Follows.before {behaviour : Behaviour σ}
    (follows : machine.Follows items exits start middle behaviour)
    (steps : ∀ state, machine.Steps items (middle, state) (stop, state)) :
    machine.Follows items exits start stop behaviour := by
  intro before how after runs
  obtain ⟨place, reached, arrives⟩ := follows _ _ _ runs
  cases how with
  | onward =>
    obtain rfl := arrives
    exact ⟨stop, reached.trans (steps after), rfl⟩
  | _ => exact ⟨place, reached, arrives⟩

/-- Straight code runs as it is visited. -/
theorem Follows.visit {code : Code} (straight : Straight code)
    (placed : Placed items start code stop) :
    machine.Follows items exits start stop (machine.visit code) := by
  -- Each instruction acts and is followed by the rest, or is stuck where it is.
  induction code generalizing start with
  | nil =>
    obtain rfl := placed
    exact .stay
  | cons item rest ih =>
    obtain ⟨here, -, behind⟩ := placed
    have first := straight item (by simp)
    have others := ih (fun item member => straight item (by simp [member])) behind
    cases item with
    | code instruction =>
      have jumps : instruction.opcode.jumps = false := by simpa [Item.isStep] using first
      have steps (state : σ) : machine.step items (start, state) =
          (machine.act instruction state).map (start + 1, ·) := step_act here jumps state
      intro before how after runs
      simp only [Machine.visit] at runs
      cases acted : machine.act instruction before with
      | some between =>
        simp only [acted] at runs
        obtain ⟨place, reached, arrives⟩ := others _ _ _ runs
        have stepped : machine.step items (start, before) = some (start + 1, between) := by
          rw [steps, acted]
          rfl
        exact ⟨place, (Steps.single stepped).trans reached, arrives⟩
      | none =>
        simp only [acted] at runs
        obtain ⟨rfl, rfl⟩ := runs
        exact ⟨start, .refl _, .act here jumps acted⟩
    | _ => simp [Item.isStep] at first

/-- Straight code goes onward unless it is stuck. -/
theorem visit_ending {code : Code} {before after : σ} {how : Ending}
    (visited : machine.visit code before how after) : how = .onward ∨ how = .stuck := by
  -- Straight code goes onward unless one of its instructions cannot act.
  induction code generalizing before with
  | nil => exact .inl visited.1
  | cons item rest ih =>
    cases item with
    | code instruction =>
      simp only [visit] at visited
      cases acted : machine.act instruction before with
      | some between =>
        rw [acted] at visited
        exact ih visited
      | none =>
        rw [acted] at visited
        exact .inr visited.1
    | _ => exact ih visited

/-- A jump on zero goes on after a value that is not zero. -/
theorem step_nonzero {label : Label} {before after : σ}
    (here : items[start]? = some (operate .je [.target label]))
    (decided : machine.nonzero before = some (true, after)) :
    machine.step items (start, before) = some (start + 1, after) := by
  simp [step, here, operate, decided]

/-- A jump on zero goes to its label after zero. -/
theorem step_zero {label : Label} {target : Nat} {before after : σ}
    (here : items[start]? = some (operate .je [.target label]))
    (there : placeOf items label = some target)
    (decided : machine.nonzero before = some (false, after)) :
    machine.step items (start, before) = some (target, after) := by
  simp [step, here, operate, decided, there]

/-- A jump on zero chooses between going on and its label. -/
theorem Follows.chooseZero {yes no : Behaviour σ} {label : Label} {target : Nat}
    (here : items[start]? = some (operate .je [.target label]))
    (there : placeOf items label = some target)
    (goesOn : machine.Follows items exits (start + 1) stop yes)
    (jumps : machine.Follows items exits target stop no) :
    machine.Follows items exits start stop (machine.choose yes no) := by
  -- Without an outcome the run is stuck at the jump; else it goes on or to the label.
  intro before how after runs
  unfold choose at runs
  cases decided : machine.nonzero before with
  | none =>
    simp only [decided] at runs
    obtain ⟨rfl, rfl⟩ := runs
    exact ⟨start, .refl _, .jump here (.inl rfl) decided⟩
  | some decision =>
    obtain ⟨nonzero, between⟩ := decision
    simp only [decided] at runs
    cases nonzero with
    | true =>
      obtain ⟨place, reached, arrives⟩ := goesOn _ _ _ runs
      exact ⟨place, (Steps.single (step_nonzero here decided)).trans reached, arrives⟩
    | false =>
      obtain ⟨place, reached, arrives⟩ := jumps _ _ _ runs
      exact ⟨place, (Steps.single (step_zero here there decided)).trans reached, arrives⟩

/-- A jump on anything but zero chooses between its label and going on. -/
theorem Follows.chooseNonzero {yes no : Behaviour σ} {label : Label} {target : Nat}
    (here : items[start]? = some (operate .jne [.target label]))
    (there : placeOf items label = some target)
    (jumps : machine.Follows items exits target stop yes)
    (goesOn : machine.Follows items exits (start + 1) stop no) :
    machine.Follows items exits start stop (machine.choose yes no) := by
  -- Without an outcome the run is stuck at the jump; else it goes to the label or on.
  intro before how after runs
  unfold choose at runs
  cases decided : machine.nonzero before with
  | none =>
    simp only [decided] at runs
    obtain ⟨rfl, rfl⟩ := runs
    exact ⟨start, .refl _, .jump here (.inr rfl) decided⟩
  | some decision =>
    obtain ⟨nonzero, between⟩ := decision
    simp only [decided] at runs
    cases nonzero with
    | true =>
      have stepped : machine.step items (start, before) = some (target, between) := by
        simp [step, here, operate, decided, there]
      obtain ⟨place, reached, arrives⟩ := jumps _ _ _ runs
      exact ⟨place, (Steps.single stepped).trans reached, arrives⟩
    | false =>
      have stepped : machine.step items (start, before) = some (start + 1, between) := by
        simp [step, here, operate, decided]
      obtain ⟨place, reached, arrives⟩ := goesOn _ _ _ runs
      exact ⟨place, (Steps.single stepped).trans reached, arrives⟩

/-- A loop runs from its label to behind its end, turn by turn. -/
theorem Follows.repeats {tested body next : Behaviour σ} {top exit : Label} {test turn back : Nat}
    (topHere : items[start]? = some (.mark top)) (topAt : placeOf items top = some start)
    (tests : machine.Follows items exits (start + 1) test tested)
    (branch : items[test]? = some (operate .je [.target exit]))
    (turns : machine.Follows items (exits.within exit) (test + 1) turn body)
    (steps : machine.Follows items exits turn back next)
    (jump : items[back]? = some (operate .jmp [.target top]))
    (exitHere : items[back + 1]? = some (.mark exit))
    (exitAt : placeOf items exit = some (back + 1)) :
    machine.Follows items exits start (back + 1 + 1) (machine.Repeats tested body next) := by
  intro before how after runs
  have entered (state : σ) : machine.Steps items (start, state) (start + 1, state) :=
    steps_mark topHere state
  have ended (state : σ) : machine.Steps items (back + 1, state) (back + 1 + 1, state) :=
    steps_mark exitHere state
  have returns (state : σ) : machine.Steps items (back, state) (start, state) :=
    steps_jump jump topAt state
  -- Where the test holds, control comes from the label of the loop to its body.
  have enters {before between inside : σ} (ran : tested before .onward between)
      (holds : machine.nonzero between = some (true, inside)) :
      machine.Steps items (start, before) (test + 1, inside) := by
    obtain ⟨place, reached, rfl⟩ := tests _ _ _ ran
    exact (entered _).trans (reached.trans (.single (step_nonzero branch holds)))
  -- The induction is on the turns that the source takes.
  induction runs with
  | untested ends test =>
    obtain ⟨place, reached, arrives⟩ := tests _ _ _ test
    refine ⟨place, (entered _).trans reached, ?_⟩
    cases ‹Ending› with
    | onward => exact absurd rfl ends
    | _ => exact arrives
  | undecided test unknown =>
    obtain ⟨place, reached, rfl⟩ := tests _ _ _ test
    exact ⟨place, (entered _).trans reached, .jump branch (.inl rfl) unknown⟩
  | finished test fails =>
    obtain ⟨place, reached, rfl⟩ := tests _ _ _ test
    have leaves := Steps.single (step_zero branch exitAt fails)
    exact ⟨_, (entered _).trans (reached.trans (leaves.trans (ended _))), rfl⟩
  | left test holds turned =>
    obtain ⟨last, inside, label, same, there⟩ := turns _ _ _ turned
    -- The end of this loop is the innermost one.
    cases same
    rw [exitAt] at there
    cases there
    exact ⟨_, (enters test holds).trans (inside.trans (ended _)), rfl⟩
  | out ends test holds turned =>
    obtain ⟨last, inside, arrives⟩ := turns _ _ _ turned
    refine ⟨last, (enters test holds).trans inside, ?_⟩
    rcases ends with rfl | rfl <;> exact arrives
  | unstepped ends test holds turned stepped =>
    obtain ⟨done, inside, rfl⟩ := turns _ _ _ turned
    obtain ⟨last, further, arrives⟩ := steps _ _ _ stepped
    refine ⟨last, (enters test holds).trans (inside.trans further), ?_⟩
    cases ‹Ending› with
    | onward => exact absurd rfl ends
    | _ => exact arrives
  | again test holds turned stepped _ ih =>
    obtain ⟨done, inside, rfl⟩ := turns _ _ _ turned
    obtain ⟨last, further, rfl⟩ := steps _ _ _ stepped
    obtain ⟨final, again, arrives⟩ := ih
    -- The jump after the turn and its step leads back to the test.
    exact ⟨final, (enters test holds).trans (inside.trans (further.trans ((returns _).trans again))),
      arrives⟩

end Machine

end SmallC
