import SmallC.Proofs.Lowering.Sites

/-! Visits of the generator: the statements that are lowered for a function, each with the loops whose
bodies enclose it, and where a statement that leaves a loop goes. -/

namespace SmallC

/-- A statement where it is lowered. -/
structure Visit where
  /-- The statement. -/
  statement : Statement
  /-- Where control goes when it leaves what encloses it. -/
  exits : Exits
  /-- What has been handed out before it. -/
  progress : Progress

/-- A visit with the loops whose bodies enclose it, the innermost first. -/
structure Enclosed where
  /-- The visit. -/
  visit : Visit
  /-- The loops around it. -/
  loops : List Visit

/-- Whether a statement leaves a loop. -/
def Statement.isBreak : Statement → Bool
  | .breakLoop => true
  | _ => false

namespace Visit

/-- The code of the statement. -/
def code (visit : Visit) : Code :=
  visit.statement.lowered visit.exits visit.progress

/-- The label behind a loop, which takes one for its top before. -/
def exit (visit : Visit) : Label :=
  visit.progress.skip.label

/-- Statements that are lowered in order. -/
def sequence (exits : Exits) : List Statement → Progress → List Visit
  | [], _ => []
  | first :: rest, progress =>
    ⟨first, exits, progress⟩ :: sequence exits rest (first.after exits progress)

/-- The statements right inside a statement in the order in which they are lowered, and which of them
is the body of a loop. -/
def parts (visit : Visit) : List (Visit × Bool) :=
  let exits := visit.exits
  let inside := exits.within visit.exit
  match visit.statement with
  | .evaluate _ | .assign .. | .breakLoop | .returnValue _ => []
  | .block scope body => (sequence exits body (visit.progress.bind scope)).map (·, false)
  | .whileLoop test body => [(⟨body, inside, test.after visit.progress.skip.skip⟩, true)]
  | .forLoop init test increment body =>
    -- The header is outside: only in the body is there a loop to leave.
    let started := init.after exits visit.progress.skip.skip
    let turned := body.after inside (test.after started)
    [(⟨init, exits, visit.progress.skip.skip⟩, false), (⟨body, inside, test.after started⟩, true),
      (⟨increment, exits, turned⟩, false)]
  | .ifThen test body => [(⟨body, exits, test.after visit.progress.skip⟩, false)]
  | .ifElse test body otherwise =>
    let entry := test.after visit.progress.skip
    [(⟨body, exits, entry⟩, false), (⟨otherwise, exits, (body.after exits entry).skip⟩, false)]

theorem sequence_mem {exits : Exits} {statements : List Statement} {progress : Progress}
    {visit : Visit} (member : visit ∈ sequence exits statements progress) :
    visit.statement ∈ statements ∧ visit.exits = exits := by
  induction statements generalizing progress with
  | nil => cases member
  | cons first rest ih =>
    rcases List.mem_cons.mp member with rfl | later
    · exact ⟨List.mem_cons_self, rfl⟩
    · exact ⟨List.mem_cons_of_mem _ (ih later).1, (ih later).2⟩

/-- A part is a smaller statement. -/
theorem sizeOf_part {visit : Visit} {part : Visit × Bool} (member : part ∈ visit.parts) :
    sizeOf part.1.statement < sizeOf visit.statement := by
  obtain ⟨statement, exits, progress⟩ := visit
  -- A block lists its statements; the other forms have at most three parts, each inside of the
  -- form.
  cases statement with
  | evaluate | assign | breakLoop | returnValue => cases member
  | block scope body =>
    obtain ⟨inner, listed, rfl⟩ := List.mem_map.mp member
    have smaller := List.sizeOf_lt_of_mem (sequence_mem listed).1
    simp only [Statement.block.sizeOf_spec]
    omega
  | whileLoop | forLoop | ifThen | ifElse =>
    simp only [parts, List.mem_cons, List.not_mem_nil, or_false] at member
    rcases member with rfl | rfl | rfl <;> simp <;> omega

/-- The visits inside a visit in the order in which they are lowered, itself first. -/
def visits (loops : List Visit) (visit : Visit) : List Enclosed :=
  ⟨visit, loops⟩ :: visit.parts.attach.flatMap fun part =>
    visits (if part.1.2 then visit :: loops else loops) part.1.1
termination_by sizeOf visit.statement
decreasing_by exact sizeOf_part part.2

/-- A visit comes before those of its parts. -/
theorem visits_eq (loops : List Visit) (visit : Visit) : visit.visits loops =
    ⟨visit, loops⟩ :: visit.parts.flatMap fun part =>
      part.1.visits (if part.2 then visit :: loops else loops) := by
  conv => rhs; rw [← List.attach_map_subtype_val visit.parts, List.flatMap_map]
  rw [visits]

variable {loops : List Visit} {visit : Visit}

theorem visits_self (loops : List Visit) (visit : Visit) : ⟨visit, loops⟩ ∈ visit.visits loops := by
  rw [visits_eq]
  exact List.mem_cons_self

/-- What is visited is the visit itself or inside one of its parts. -/
theorem mem_visits {found : Enclosed} : found ∈ visit.visits loops ↔ found = ⟨visit, loops⟩ ∨
    ∃ part ∈ visit.parts, found ∈ part.1.visits (if part.2 then visit :: loops else loops) := by
  rw [visits_eq, List.mem_cons, List.mem_flatMap]

/-- What passes from a visit to its parts holds of all visits inside. -/
theorem visits_induction {good : List Visit → Visit → Prop}
    (step : ∀ loops visit, good loops visit → ∀ part ∈ visit.parts,
      good (if part.2 then visit :: loops else loops) part.1)
    (here : good loops visit) : ∀ found ∈ visit.visits loops, good found.loops found.visit := by
  induction loops, visit using visits.induct with
  | case1 loops visit ih =>
    intro found member
    rcases mem_visits.mp member with rfl | ⟨part, listed, inside⟩
    · exact here
    · exact ih ⟨part, listed⟩ (step loops visit here part listed) found inside

/-- The parts of what is visited are visited. -/
theorem visits_part {found : Enclosed} (member : found ∈ visit.visits loops) {part : Visit × Bool}
    (listed : part ∈ found.visit.parts) :
    ⟨part.1, if part.2 then found.visit :: found.loops else found.loops⟩ ∈ visit.visits loops := by
  induction loops, visit using visits.induct with
  | case1 loops visit ih =>
    rcases mem_visits.mp member with rfl | ⟨other, inner, inside⟩
    · exact mem_visits.mpr (.inr ⟨part, listed, visits_self _ _⟩)
    · exact mem_visits.mpr (.inr ⟨other, inner, ih ⟨other, inner⟩ inside⟩)

/-! Exits. -/

/-- Only the body of a loop has an exit that is not that of the statement around it. -/
theorem exits_part {part : Visit × Bool} (member : part ∈ visit.parts) :
    part.1.exits = if part.2 then visit.exits.within visit.exit else visit.exits := by
  obtain ⟨statement, exits, progress⟩ := visit
  -- The flag of a part tells whether it is the body of a loop.
  cases statement with
  | evaluate | assign | breakLoop | returnValue => cases member
  | block scope body =>
    obtain ⟨inner, listed, rfl⟩ := List.mem_map.mp member
    exact (sequence_mem listed).2
  | whileLoop | forLoop | ifThen | ifElse =>
    simp only [parts, List.mem_cons, List.not_mem_nil, or_false] at member
    rcases member with rfl | rfl | rfl <;> rfl

/-- The exit in force is that of the innermost loop. -/
theorem exits_visits (outermost : visit.exits.loop? = loops.head?.map exit) :
    ∀ found ∈ visit.visits loops, found.visit.exits.loop? = found.loops.head?.map exit := by
  refine @visits_induction loops visit (fun loops inner => inner.exits.loop? = loops.head?.map exit)
    (fun loops inner here part listed => ?_) outermost
  rw [exits_part listed]
  -- A body leaves the loop it belongs to, and every other part what its statement leaves.
  cases part.2 with
  | true => rfl
  | false => exact here

/-! Code. -/

theorem code_sequence {exits : Exits} {statements : List Statement} {progress : Progress}
    (member : visit ∈ sequence exits statements progress) :
    visit.code <:+: Statement.loweredAll exits statements progress := by
  induction statements generalizing progress with
  | nil => cases member
  | cons first rest ih =>
    unfold Statement.loweredAll
    rw [Statement.lowerAll_cons]
    -- The code of the first statement stands in front of that of the others.
    rcases List.mem_cons.mp member with rfl | later
    · exact (List.prefix_append _ _).isInfix
    · exact (ih later).trans (List.suffix_append _ _).isInfix

/-- The code of a statement holds that of its parts. -/
theorem code_part {part : Visit × Bool} (member : part ∈ visit.parts) :
    part.1.code <:+: visit.code := by
  obtain ⟨statement, exits, progress⟩ := visit
  -- The code of each part stands as one stretch among the labels and jumps of its statement.
  cases statement with
  | evaluate | assign | breakLoop | returnValue => cases member
  | block scope body =>
    obtain ⟨inner, listed, rfl⟩ := List.mem_map.mp member
    unfold code Statement.lowered
    rw [Statement.lower_block]
    exact code_sequence listed
  | whileLoop test body =>
    obtain rfl := List.mem_singleton.mp member
    unfold code Statement.lowered
    rw [Statement.lower_whileLoop]
    exact List.infix_append _ _ _
  | forLoop init test increment body =>
    simp only [parts, List.mem_cons, List.not_mem_nil, or_false] at member
    unfold code Statement.lowered
    rw [Statement.lower_forLoop]
    rcases member with rfl | rfl | rfl
    · exact ((List.prefix_append _ _).trans ((List.prefix_append _ _).trans
        ((List.prefix_append _ _).trans (List.prefix_append _ _)))).isInfix
    · exact (List.infix_append _ _ _).trans (List.prefix_append _ _).isInfix
    · exact List.infix_append _ _ _
  | ifThen test body =>
    obtain rfl := List.mem_singleton.mp member
    unfold code Statement.lowered
    rw [Statement.lower_ifThen]
    exact List.infix_append _ _ _
  | ifElse test body otherwise =>
    simp only [parts, List.mem_cons, List.not_mem_nil, or_false] at member
    unfold code Statement.lowered
    rw [Statement.lower_ifElse]
    rcases member with rfl | rfl
    · exact (List.infix_append _ _ _).trans
        ((List.prefix_append _ _).trans (List.prefix_append _ _)).isInfix
    · exact List.infix_append _ _ _

/-- The code of whatever is visited is part of the code of the visit. -/
theorem code_visits : ∀ found ∈ visit.visits loops, found.visit.code <:+: visit.code :=
  @visits_induction loops visit (fun _ inner => inner.code <:+: visit.code)
    (fun _ _ here _ listed => (code_part listed).trans here) (List.infix_refl _)

/-- A loop ends with the jump to its top and the label that its body leaves it by. -/
theorem code_loop {turn : Visit} (member : (turn, true) ∈ visit.parts) : ∃ front,
    visit.code = front ++ [operate .jmp [.target visit.progress.label], .mark visit.exit] := by
  obtain ⟨statement, exits, progress⟩ := visit
  -- Only the two loops have a part that is marked as a body.
  cases statement with
  | evaluate | assign | breakLoop | returnValue => cases member
  | block => simp [parts] at member
  | ifThen | ifElse => simp [parts] at member
  | whileLoop test body =>
    unfold code Statement.lowered
    rw [Statement.lower_whileLoop]
    exact ⟨_, rfl⟩
  | forLoop init test increment body =>
    unfold code Statement.lowered
    rw [Statement.lower_forLoop]
    exact ⟨_, rfl⟩

/-- A statement that leaves a loop is a jump to the exit in force, where there is one. -/
theorem code_break (leaves : visit.statement.isBreak = true) :
    visit.code = (visit.exits.loop?.map fun exit => operate .jmp [.target exit]).toList := by
  obtain ⟨statement, exits, progress⟩ := visit
  cases statement <;> cases leaves
  unfold code Statement.lowered
  rw [Statement.lower_breakLoop]

/-! Enclosing loops. -/

/-- The visit is inside the body of the loop, with no other loop between them. -/
def Encloses (loop visit : Visit) : Prop :=
  ∃ turn, (turn, true) ∈ loop.parts ∧ ⟨visit, []⟩ ∈ turn.visits []

/-- The innermost loop around what is visited is itself visited, inside the others, and encloses it. -/
theorem encloses_visits : ∀ found ∈ visit.visits [], ∀ loop outer, found.loops = loop :: outer →
    loop.Encloses found.visit ∧ ⟨loop, outer⟩ ∈ visit.visits [] := by
  have placed := @visits_induction [] visit (fun loops inner => ⟨inner, loops⟩ ∈ visit.visits [] ∧
    ∀ loop outer, loops = loop :: outer → loop.Encloses inner ∧ ⟨loop, outer⟩ ∈ visit.visits [])
  refine fun found member => (placed ?_ ⟨visits_self _ _, nofun⟩ found member).2
  rintro loops inner ⟨visited, around⟩ ⟨part, turns⟩ listed
  refine ⟨visits_part visited listed, fun loop outer same => ?_⟩
  cases turns with
  | true =>
    -- The statement is the innermost loop around its own body.
    obtain ⟨rfl, rfl⟩ := List.cons.inj same
    exact ⟨⟨part, listed, visits_self _ _⟩, visited⟩
  | false =>
    obtain ⟨⟨turn, body, inside⟩, known⟩ := around loop outer same
    exact ⟨⟨turn, body, visits_part inside listed⟩, known⟩

end Visit

/-! Counting. -/

namespace Statement

mutual

/-- How many loops are around each statement that leaves a loop, in order, there being so many around
the whole. -/
def depths : Statement → (loops : Nat) → List Nat
  | .evaluate _, _ | .assign .., _ | .returnValue _, _ => []
  | .breakLoop, loops => [loops]
  | .block _ body, loops => depthsAll body loops
  | .whileLoop _ body, loops => depths body (loops + 1)
  | .forLoop init _ increment body, loops =>
    depths init loops ++ (depths body (loops + 1) ++ depths increment loops)
  | .ifThen _ body, loops => depths body loops
  | .ifElse _ body otherwise, loops => depths body loops ++ depths otherwise loops

/-- The same for statements in order. -/
def depthsAll : List Statement → (loops : Nat) → List Nat
  | [], _ => []
  | first :: rest, loops => depths first loops ++ depthsAll rest loops

end

end Statement

/-- Those visits at which a loop is left. -/
def breaksOf (visits : List Enclosed) : List Enclosed :=
  visits.filter (·.visit.statement.isBreak)

theorem breaksOf_append (visits others : List Enclosed) :
    breaksOf (visits ++ others) = breaksOf visits ++ breaksOf others :=
  List.filter_append _ _

namespace Visit

/-- So many loops are around the visits of a statement that leave one. -/
def Counts (statement : Statement) : Prop :=
  ∀ loops exits progress,
    (breaksOf (visits loops ⟨statement, exits, progress⟩)).map (·.loops.length) =
      statement.depths loops.length

/-- What does not leave a loop itself leaves those that its parts leave. -/
theorem breaksOf_visits {visit : Visit} (other : visit.statement.isBreak = false)
    (loops : List Visit) : breaksOf (visit.visits loops) =
      visit.parts.flatMap fun part =>
        breaksOf (part.1.visits (if part.2 then visit :: loops else loops)) := by
  unfold breaksOf
  rw [visits_eq, List.filter_cons_of_neg (by simp [other]), List.filter_flatMap]

theorem depths_sequence {statements : List Statement} (each : ∀ statement ∈ statements, Counts statement)
    (loops : List Visit) (exits : Exits) (progress : Progress) :
    (breaksOf ((sequence exits statements progress).flatMap (visits loops))).map (·.loops.length) =
      Statement.depthsAll statements loops.length := by
  induction statements generalizing progress with
  | nil => rfl
  | cons first rest ih =>
    rw [sequence, List.flatMap_cons, breaksOf_append, List.map_append, Statement.depthsAll,
      each first List.mem_cons_self, ih fun statement later => each statement (.tail _ later)]

/-- The loops around the visits that leave one are as many as those around the statements. -/
theorem counts (statement : Statement) : Counts statement := by
  -- Each statement adds up its parts; a loop hands its body one more loop on both sides.
  induction statement using Statement.inductionOn with
  | evaluate | assign | returnValue =>
    intro loops exits progress
    rw [breaksOf_visits rfl]
    rfl
  | breakLoop =>
    intro loops exits progress
    rw [visits_eq]
    rfl
  | block scope body each =>
    intro loops exits progress
    rw [breaksOf_visits rfl, Statement.depths, ← depths_sequence each loops exits (progress.bind scope)]
    simp [parts, breaksOf, List.flatMap_map, List.filter_flatMap]
  | whileLoop test body turn =>
    intro loops exits progress
    rw [breaksOf_visits rfl, Statement.depths]
    simp [parts, turn _ _ _]
  | forLoop init test increment body start next turn =>
    intro loops exits progress
    rw [breaksOf_visits rfl, Statement.depths]
    simp [parts, start _ _ _, next _ _ _, turn _ _ _]
  | ifThen test body taken =>
    intro loops exits progress
    rw [breaksOf_visits rfl, Statement.depths]
    simp [parts, taken _ _ _]
  | ifElse test body otherwise taken other =>
    intro loops exits progress
    rw [breaksOf_visits rfl, Statement.depths]
    simp [parts, taken _ _ _, other _ _ _]

end Visit

end SmallC
