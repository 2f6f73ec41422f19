import SmallC.Proofs.Execution.Places
import SmallC.Proofs.Frames.Slots

/-! Pointers: along every run of a function its frame ends below its base by the size of the
frame. -/

namespace SmallC

/-- The registers that hold the frame, and how the tests to come end. -/
structure Pointers where
  /-- The base of the frame. -/
  base : Int
  /-- The end of the frame, which is the end of the stack. -/
  stop : Int
  /-- The bases that have been pushed, the last one first. -/
  pushed : List Int
  /-- The outcomes of the tests to come. -/
  outcomes : List Bool

/-- What an instruction does to the registers that hold the frame, the sizes of frames being known
by the names of the functions. -/
def Instruction.point (sizes : String → Nat) (instruction : Instruction) (pointers : Pointers) :
    Option Pointers :=
  match instruction with
  | ⟨.pushl, [.register .ebp]⟩ => some { pointers with
      stop := pointers.stop - 4
      pushed := pointers.base :: pointers.pushed }
  | ⟨.popl, [.register .ebp]⟩ =>
    match pointers.pushed with
    | [] => none
    | base :: rest => some { pointers with base, stop := pointers.stop + 4, pushed := rest }
  | ⟨.movl, [.register .esp, .register .ebp]⟩ => some { pointers with base := pointers.stop }
  | ⟨.movl, [.register .ebp, .register .esp]⟩ => some { pointers with stop := pointers.base }
  | ⟨.subl, [.frameSize name, .register .esp]⟩ =>
    some { pointers with stop := pointers.stop - sizes name }
  -- A called function gives both registers back as it has found them.
  | instruction => if instruction.arguments.any Argument.holdsFrame then none else some pointers

/-- A machine that follows the registers that hold the frame, whatever its tests come to. -/
def pointing (sizes : String → Nat) : Machine Pointers where
  act := Instruction.point sizes
  nonzero state :=
    match state.outcomes with
    | [] => none
    | outcome :: rest => some (outcome, { state with outcomes := rest })

/-- An instruction that does not name the registers leaves them alone. -/
theorem point_plain {sizes : String → Nat} {instruction : Instruction} (pointers : Pointers)
    (plain : (Item.code instruction).holdsFrame = false) :
    instruction.point sizes pointers = some pointers := by
  unfold Instruction.point
  split
  case h_6 => exact if_neg (Bool.eq_false_iff.mp plain)
  all_goals cases plain

namespace Function

variable (function : Function) (symbols : SymbolTable) (generated : Generated)

/-- Where a run of a function may be, and what its registers hold there. -/
inductive Points (size : Nat) : (place : Nat) → Pointers → Prop where
  /-- The base of the caller has not been replaced yet. -/
  | entering {place : Nat} {state : Pointers} (after : generated.items.length < place)
    (before : place + 1 < function.start symbols generated) : Points size place state
  /-- The frame has a base, but is empty. -/
  | based {place : Nat} {state : Pointers} (here : place + 1 = function.start symbols generated)
    (empty : state.stop = state.base) : Points size place state
  /-- The frame has its size. -/
  | inside {place : Nat} {state : Pointers} (after : function.start symbols generated ≤ place)
    (before : place ≤ function.stop symbols generated + 2)
    (sized : state.stop = state.base - size) : Points size place state
  /-- The frame has been given back. -/
  | leaving {place : Nat} {state : Pointers} (after : function.stop symbols generated + 2 < place)
    (before : place ≤ function.stop symbols generated + 4) : Points size place state

variable {function symbols generated} {later : List Item} {sizes : String → Nat} {size : Nat}

/-- Before the body the frame is set up. -/
theorem points_prologue {place next : Nat} {state after : Pointers}
    (named : sizes (symbols.nameOf function.symbol) = size)
    (behind : generated.items.length < place) (before : place < function.start symbols generated)
    (points : function.Points symbols generated size place state)
    (stepped : (pointing sizes).step (function.unit symbols generated later) (place, state) =
      some (next, after)) : function.Points symbols generated size next after := by
  have start : function.start symbols generated = generated.items.length + 5 := by
    simp [Function.start, preceding, prologue]
  have stop : function.start symbols generated ≤ function.stop symbols generated :=
    Nat.le_add_right _ _
  have item (index : Nat) {item : Item} :=
    @unit_prologue function symbols generated later index item
  -- The prologue is five items long, and a run enters at the second one.
  obtain rfl | rfl | rfl | rfl : place = generated.items.length + 1 ∨
      place = generated.items.length + 2 ∨ place = generated.items.length + 3 ∨
        place = generated.items.length + 4 := by omega
  · simp only [Machine.step, item 1 rfl] at stepped
    cases stepped
    exact .entering (by omega) (by omega)
  · simp only [Machine.step, item 2 rfl, operate] at stepped
    cases stepped
    exact .entering (by omega) (by omega)
  · simp only [Machine.step, item 3 rfl, operate] at stepped
    cases stepped
    exact .based (by omega) rfl
  · simp only [Machine.step, item 4 rfl, operate] at stepped
    cases stepped
    cases points with
    | entering | inside | leaving => omega
    | based _ empty =>
      refine .inside (by omega) (by omega) ?_
      show state.stop - sizes _ = _
      rw [empty, named]

/-- Behind the body the frame is given back. -/
theorem points_epilogue {place next : Nat} {state after : Pointers}
    (behind : function.stop symbols generated ≤ place)
    (before : place ≤ function.stop symbols generated + 4)
    (points : function.Points symbols generated size place state)
    (stepped : (pointing sizes).step (function.unit symbols generated later) (place, state) =
      some (next, after)) : function.Points symbols generated size next after := by
  obtain ⟨rest, item⟩ := function.unit_epilogue symbols generated later
  have start : function.start symbols generated ≤ function.stop symbols generated :=
    Nat.le_add_right _ _
  -- Up to the first instruction behind the body the frame has its size.
  have sized (early : place ≤ function.stop symbols generated + 2) :
      state.stop = state.base - size := by
    cases points with
    | entering | based | leaving => omega
    | inside _ _ sized => exact sized
  obtain rfl | rfl | rfl | rfl | rfl : place = function.stop symbols generated ∨
      place = function.stop symbols generated + 1 ∨ place = function.stop symbols generated + 2 ∨
        place = function.stop symbols generated + 3 ∨
          place = function.stop symbols generated + 4 := by omega
  · have here := item 0
    simp only [Nat.add_zero, List.getElem?_cons_zero] at here
    simp only [Machine.step, here] at stepped
    cases stepped
    exact .inside (by omega) (by omega) (sized (by omega))
  · have here : (function.unit symbols generated later)[function.stop symbols generated + 1]? =
        some (.mark ⟨generated.nextLabel⟩) := item 1
    simp only [Machine.step, here] at stepped
    cases stepped
    exact .inside (by omega) (by omega) (sized (by omega))
  · have here : (function.unit symbols generated later)[function.stop symbols generated + 2]? =
        some (operate .movl [Register.ebp, Register.esp]) := item 2
    simp only [Machine.step, here, operate] at stepped
    cases stepped
    exact .leaving (by omega) (by omega)
  · have here : (function.unit symbols generated later)[function.stop symbols generated + 3]? =
        some (operate .popl [Register.ebp]) := item 3
    simp only [Machine.step, here, operate] at stepped
    obtain ⟨reached, -, ends⟩ := Option.map_eq_some_iff.mp stepped
    cases ends
    exact .leaving (by omega) (by omega)
  · simp only [Machine.step, unit_return, operate] at stepped
    cases stepped

/-- An item of the body leaves the registers that hold the frame alone. -/
theorem points_body {place next : Nat} {state after : Pointers} (labelled : generated.Labelled)
    (plain : ∀ item ∈ function.bodyCode symbols generated.nextLabel, item.holdsFrame = false)
    (behind : function.start symbols generated ≤ place)
    (before : place < function.stop symbols generated)
    (points : function.Points symbols generated size place state)
    (stepped : (pointing sizes).step (function.unit symbols generated later) (place, state) =
      some (next, after)) : function.Points symbols generated size next after := by
  obtain ⟨index, rfl⟩ := Nat.exists_eq_add_of_le behind
  have inner : index < (function.bodyCode symbols generated.nextLabel).length :=
    Nat.lt_of_add_lt_add_left before
  have sized : state.stop = state.base - size := by
    cases points with
    | entering | based | leaving => omega
    | inside _ _ sized => exact sized
  -- An instruction leaves the registers alone, and a test only takes the next outcome.
  rcases step_body labelled inner stepped with
    ⟨instruction, here, acts, rfl⟩ | ⟨same | ⟨outcome, known⟩, goes⟩
  · have acted := acts.symm.trans (point_plain state (plain _ (List.mem_of_getElem? here)))
    cases acted
    exact .inside (by omega) (by omega) sized
  · exact .inside (by omega) (by omega) (same ▸ sized)
  · have kept : after.stop = state.stop ∧ after.base = state.base := by
      simp only [pointing] at known
      split at known
      · cases known
      · cases known
        exact ⟨rfl, rfl⟩
    exact .inside (by omega) (by omega) (by rw [kept.1, kept.2, sized])

/-- A step of a function leaves its registers as they are to be. -/
theorem Points.step {place next : Nat} {state after : Pointers} (labelled : generated.Labelled)
    (plain : ∀ item ∈ function.bodyCode symbols generated.nextLabel, item.holdsFrame = false)
    (named : sizes (symbols.nameOf function.symbol) = size)
    (points : function.Points symbols generated size place state)
    (stepped : (pointing sizes).step (function.unit symbols generated later) (place, state) =
      some (next, after)) : function.Points symbols generated size next after := by
  have stop : function.start symbols generated ≤ function.stop symbols generated :=
    Nat.le_add_right _ _
  have within : generated.items.length < place ∧ place ≤ function.stop symbols generated + 4 := by
    have start : function.start symbols generated = generated.items.length + 5 := by
      simp [Function.start, preceding, prologue]
    cases points <;> omega
  -- The place says whether the step is one of the prologue, of the body or of what is behind it.
  rcases Nat.lt_or_ge place (function.start symbols generated) with early | behind
  · exact points_prologue named within.1 early points stepped
  rcases Nat.lt_or_ge place (function.stop symbols generated) with before | late
  · exact points_body labelled plain behind before points stepped
  · exact points_epilogue late within.2 points stepped

/-- Along a run of a function, its registers are as they are to be. -/
theorem points_run {place reached : Nat} {state after : Pointers} (labelled : generated.Labelled)
    (plain : ∀ item ∈ function.bodyCode symbols generated.nextLabel, item.holdsFrame = false)
    (named : sizes (symbols.nameOf function.symbol) = size)
    (points : function.Points symbols generated size place state)
    (run : (pointing sizes).Steps (function.unit symbols generated later) (place, state)
      (reached, after)) : function.Points symbols generated size reached after := by
  -- Each step keeps what the registers hold, wherever the run has come to.
  generalize first : (place, state) = here at run
  generalize last : (reached, after) = there at run
  induction run generalizing reached after with
  | refl =>
    subst first
    cases last
    exact points
  | @tail between _ _ stepped ih =>
    obtain ⟨middle, pointers⟩ := between
    rw [← last] at stepped
    exact (ih rfl).step labelled plain named stepped

end Function

end SmallC
