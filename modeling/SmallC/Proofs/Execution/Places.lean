import SmallC.Proofs.Execution.Functions
import SmallC.Proofs.Lowering.Jumps
import SmallC.Proofs.Lowering.Sites

/-! Places: where the code of a function stands in its unit, and where its steps go. -/

namespace SmallC

/-- Code that stands among items is found there item by item, labels included. -/
theorem Placed.item {items : List Item} {code : Code} {start stop index : Nat} {item : Item}
    (placed : Placed items start code stop) (here : code[index]? = some item) :
    items[start + index]? = some item ∧
      ∀ label, item = .mark label → placeOf items label = some (start + index) := by
  induction code generalizing start index with
  | nil => cases here
  | cons first rest ih =>
    obtain ⟨found, labelled, behind⟩ := placed
    -- The first item is where the code starts, and the others are behind it.
    cases index with
    | zero =>
      cases here
      exact ⟨found, labelled⟩
    | succ index =>
      rw [← Nat.succ_add_eq_add_succ]
      exact ih behind here

namespace Function

variable {function : Function} {symbols : SymbolTable} {generated : Generated} {later : List Item}

/-- The items before the body are the prologue of the function. -/
theorem unit_prologue {index : Nat} {item : Item}
    (here : (prologue (symbols.nameOf function.symbol))[index]? = some item) :
    (function.unit symbols generated later)[generated.items.length + index]? = some item := by
  obtain ⟨rest, unit⟩ := function.unit_eq symbols generated later
  have within := (List.getElem?_eq_some_iff.mp here).1
  rw [unit, preceding, List.append_assoc, List.append_assoc,
    List.getElem?_append_right (Nat.le_add_right _ _), Nat.add_sub_cancel_left,
    List.getElem?_append_left within, here]

/-- The return stands at the end. -/
theorem unit_return :
    (function.unit symbols generated later)[function.stop symbols generated + 4]? =
      some (operate .ret []) := by
  obtain ⟨rest, behind⟩ := function.unit_epilogue symbols generated later
  exact behind 4

/-- Behind the body there is an empty line. -/
theorem unit_blank : (function.unit symbols generated later)[function.stop symbols generated]? =
    some .blank := by
  obtain ⟨rest, behind⟩ := function.unit_epilogue symbols generated later
  exact behind 0

/-- Where a jump of the body comes to: at a label of the body, or at the end of the function. -/
theorem jump_lands (labelled : generated.Labelled) {index : Nat} {opcode : Opcode} {label : Label}
    (here : (function.bodyCode symbols generated.nextLabel)[index]? =
      some (operate opcode [.target label])) (jumps : opcode.jumps = true) :
    (∃ target, (function.bodyCode symbols generated.nextLabel)[target]? = some (.mark label) ∧
      placeOf (function.unit symbols generated later) label =
        some (function.start symbols generated + target)) ∨
      label = ⟨generated.nextLabel⟩ ∧ placeOf (function.unit symbols generated later) label =
        some (function.stop symbols generated + 1) := by
  have known := function.closed_bodyCode symbols generated.nextLabel _
    (List.mem_of_getElem? here) label (by simp [operate, Item.targets, jumps, Argument.target?])
  rcases known with marked | rfl
  · obtain ⟨target, there⟩ := List.mem_iff_getElem?.mp marked
    exact .inl ⟨target, there,
      ((function.placed_bodyCode symbols generated later labelled).item there).2 label rfl⟩
  · exact .inr ⟨rfl, function.placeOf_end symbols generated later labelled⟩

/-- A step inside the body is an instruction that acts, a label that is passed, or a jump that may
look at the outcome of a test; a jump goes on, to a label of the body or to the end of the
function. -/
theorem step_body {σ : Type} {machine : Machine σ} {index next : Nat} {state after : σ}
    (labelled : generated.Labelled)
    (inner : index < (function.bodyCode symbols generated.nextLabel).length)
    (stepped : machine.step (function.unit symbols generated later)
      (function.start symbols generated + index, state) = some (next, after)) :
    (∃ instruction, (function.bodyCode symbols generated.nextLabel)[index]? =
        some (.code instruction) ∧ machine.act instruction state = some after ∧
          next = function.start symbols generated + index + 1) ∨
      ((after = state ∨ ∃ outcome, machine.nonzero state = some (outcome, after)) ∧
        (next = function.start symbols generated + index + 1 ∨
          function.start symbols generated ≤ next ∧
            next ≤ function.stop symbols generated + 1)) := by
  obtain ⟨item, here⟩ : ∃ item,
      (function.bodyCode symbols generated.nextLabel)[index]? = some item :=
    ⟨_, List.getElem?_eq_getElem inner⟩
  have found := ((function.placed_bodyCode symbols generated later labelled).item here).1
  -- Whichever jump is taken, its label is one of the body or that of the end.
  have jumped {opcode : Opcode} {label : Label} {reached : σ}
      (same : some item = some (operate opcode [.target label])) (jumps : opcode.jumps = true)
      (goes : (placeOf (function.unit symbols generated later) label).map (·, reached) =
        some (next, after)) : reached = after ∧
          function.start symbols generated ≤ next ∧ next ≤ function.stop symbols generated + 1 := by
    obtain ⟨place, found, ends⟩ := Option.map_eq_some_iff.mp goes
    cases ends
    refine ⟨rfl, ?_⟩
    rcases @jump_lands function symbols generated later labelled index opcode label
        (here.trans same) jumps with ⟨target, there, lands⟩ | ⟨-, lands⟩
    · have within := (List.getElem?_eq_some_iff.mp there).1
      cases found.symm.trans lands
      unfold stop
      omega
    · cases found.symm.trans lands
      unfold stop
      omega
  -- The cases are those of the machine: a jump, the two that look at a test, a return, an
  -- instruction that acts, and what is passed over.
  simp only [Machine.step, found] at stepped
  split at stepped
  · next label same =>
    obtain ⟨rfl, lands⟩ := jumped same rfl stepped
    exact .inr ⟨.inl rfl, .inr lands⟩
  · next label same =>
    split at stepped
    · next known =>
      cases stepped
      exact .inr ⟨.inr ⟨_, known⟩, .inl rfl⟩
    · next known =>
      obtain ⟨rfl, lands⟩ := jumped same rfl stepped
      exact .inr ⟨.inr ⟨_, known⟩, .inr lands⟩
    · cases stepped
  · next label same =>
    split at stepped
    · next known =>
      obtain ⟨rfl, lands⟩ := jumped same rfl stepped
      exact .inr ⟨.inr ⟨_, known⟩, .inr lands⟩
    · next known =>
      cases stepped
      exact .inr ⟨.inr ⟨_, known⟩, .inl rfl⟩
    · cases stepped
  · cases stepped
  · next instruction _ _ _ _ same =>
    obtain ⟨reached, acts, ends⟩ := Option.map_eq_some_iff.mp stepped
    cases ends
    exact .inl ⟨instruction, here.trans same, acts, rfl⟩
  all_goals cases stepped <;> exact .inr ⟨.inl rfl, .inl rfl⟩

end Function

namespace Handed

variable (entry : Handed) (later : List Item)

/-- The items of the unit once the function is written. -/
def unit : List Item := entry.function.unit entry.symbols entry.generated later

/-- The label at the end of a function, where returns go to. -/
def exit : Label := ⟨entry.generated.nextLabel⟩

/-- The place of the body that comes behind the first sites. -/
def behind (sites : List Site) : Nat :=
  entry.function.start entry.symbols entry.generated + (codeAt sites).length

/-- Behind all of its sites the body of a function ends. -/
theorem behind_sites :
    entry.behind (entry.function.sites entry.symbols entry.generated.nextLabel) =
      entry.function.stop entry.symbols entry.generated := by
  rw [behind, Function.codeAt_sites]
  rfl

end Handed

end SmallC
