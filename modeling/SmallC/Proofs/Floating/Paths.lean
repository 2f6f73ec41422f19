import SmallC.Proofs.Execution.Places
import SmallC.Proofs.Floating.Balance
import SmallC.Proofs.Scoping.Naming

/-! Paths: along every run of a function the floating-point stack holds what its code accounts
for. -/

namespace SmallC

namespace Convention

variable {convention : Convention}

/-- Counting never comes to more than two values. -/
theorem count_le {item : Item} {held next : Nat} (counted : convention.count item held = some next) :
    next ≤ 2 := by
  -- An instruction is checked for its count, and a label asks for none at all.
  unfold count at counted
  split at counted
  · cases passes_of_pass counted with
    | jump | branch => exact Nat.zero_le 2
    | act straight floats few => exact few
  · obtain ⟨-, counted⟩ := Option.ite_none_right_eq_some.mp counted
    cases counted
    exact Nat.zero_le 2
  · cases counted

theorem counts_le {code : Code} {held next : Nat} (few : held ≤ 2)
    (counted : convention.counts code held = some next) : next ≤ 2 := by
  induction code generalizing held with
  | nil =>
    cases counted
    exact few
  | cons item rest ih =>
    obtain ⟨between, first, later⟩ := Option.bind_eq_some_iff.mp counted
    exact ih (count_le first) later

/-- Inside balanced code there is a count before every item. -/
theorem Balanced.counts_take {code : Code} (balanced : convention.Balanced code) (index : Nat) :
    ∃ held, convention.counts (code.take index) 0 = some held ∧
      convention.counts (code.drop index) held = some 0 := by
  have whole : convention.counts (code.take index ++ code.drop index) 0 = some 0 := by
    rw [List.take_append_drop]
    exact balanced
  rw [counts_append] at whole
  exact Option.bind_eq_some_iff.mp whole

/-- Inside balanced code every item is passed from the count before it to the one behind it. -/
theorem Balanced.count_item {code : Code} (balanced : convention.Balanced code) {index held : Nat}
    {item : Item} (here : code[index]? = some item)
    (counted : convention.counts (code.take index) 0 = some held) :
    ∃ next, convention.count item held = some next ∧
      convention.counts (code.take (index + 1)) 0 = some next := by
  obtain ⟨next, behind, -⟩ := balanced.counts_take (index + 1)
  refine ⟨next, ?_, behind⟩
  rw [List.take_add_one, here, counts_append, counted] at behind
  have alone : (convention.count item held).bind (convention.counts []) = some next := behind
  obtain ⟨last, passed, same⟩ := Option.bind_eq_some_iff.mp alone
  cases same
  exact passed

/-- Inside balanced code nothing is held at a label. -/
theorem Balanced.count_mark {code : Code} (balanced : convention.Balanced code) {index : Nat}
    {label : Label} (here : code[index]? = some (.mark label)) :
    convention.counts (code.take index) 0 = some 0 := by
  obtain ⟨held, counted, -⟩ := balanced.counts_take index
  obtain ⟨next, passed, -⟩ := balanced.count_item here counted
  obtain ⟨rfl, -⟩ := Option.ite_none_right_eq_some.mp passed
  exact counted

end Convention

/-- An item that leaves the floating-point stack alone and is followed by the next one. -/
inductive Item.Plain (leaves : String → Nat) : Item → Prop where
  /-- The instruction neither jumps nor touches the floating-point stack. -/
  | words {instruction : Instruction} (straight : instruction.opcode.jumps = false)
    (untouched : instruction.opcode.floats = (0, 0)) (own : instruction.returns leaves = 0) :
    Plain leaves (.code instruction)
  /-- The function starts here. -/
  | entry (name : String) : Plain leaves (.entry name)
  /-- The function ends here. -/
  | mark (label : Label) : Plain leaves (.mark label)

/-- Plain items are passed over. -/
theorem step_plain {leaves : String → Nat} {items : List Item} {place : Nat} {item : Item}
    (here : items[place]? = some item) (plain : item.Plain leaves) (state : Floats) :
    (floating leaves).step items (place, state) = some (place + 1, state) := by
  cases plain with
  | words straight untouched own =>
    rw [Machine.step_act here straight]
    simp [floating, Instruction.float, untouched, own]
  | entry | mark => simp [Machine.step, here]

namespace Function

variable (function : Function) (symbols : SymbolTable) (generated : Generated) (later : List Item)

/-- What the code of a function relies on: calls leave what they are said to leave, and a return
brings what the function is declared to return. -/
def convention (leaves : String → Nat) : Convention where
  leaves := leaves
  exit := ⟨generated.nextLabel⟩
  returned := (symbols.typeOf function.symbol).leaves

/-- Where a run of a function may be, and how many values are held there. -/
inductive Holds (leaves : String → Nat) : (place held : Nat) → Prop where
  /-- Before the body there are none. -/
  | entering {place : Nat} (after : generated.items.length < place)
    (before : place < function.start symbols generated) : Holds leaves place 0
  /-- Inside the body there are as many as its code accounts for. -/
  | inside {index held : Nat}
    (within : index ≤ (function.bodyCode symbols generated.nextLabel).length)
    (counted : (function.convention symbols generated leaves).counts
      ((function.bodyCode symbols generated.nextLabel).take index) 0 = some held) :
    Holds leaves (function.start symbols generated + index) held
  /-- Behind the body there are at most those that are returned. -/
  | leaving {place held : Nat} (after : function.stop symbols generated < place)
    (before : place ≤ function.stop symbols generated + 4)
    (few : held ≤ (symbols.typeOf function.symbol).leaves) : Holds leaves place held

variable {function symbols generated later} {leaves : String → Nat}

/-- There are never more than two values. -/
theorem Holds.le_two {place held : Nat} (holds : function.Holds symbols generated leaves place held) :
    held ≤ 2 := by
  cases holds with
  | entering => exact Nat.zero_le 2
  | inside within counted => exact Convention.counts_le (Nat.zero_le 2) counted
  | leaving after before few =>
    exact Nat.le_trans few (Nat.le_trans (Ty.leaves_le _) (Nat.le_succ 1))

/-- How a run arrives at the end of a function: from behind its body with nothing, or from a jump
inside with what is returned. -/
def Arriving (function : Function) (symbols : SymbolTable) (generated : Generated)
    (place held : Nat) : Prop :=
  place = function.stop symbols generated ∧ held = 0 ∨
    ∃ index, place = function.start symbols generated + index ∧
      (function.bodyCode symbols generated.nextLabel)[index]? =
        some (operate .jmp [.target ⟨generated.nextLabel⟩]) ∧
      held = (symbols.typeOf function.symbol).leaves

/-- Before the body the items are plain. -/
theorem plain_entering {place : Nat} (after : generated.items.length < place)
    (before : place < function.start symbols generated) :
    ∃ item, (function.unit symbols generated later)[place]? = some item ∧ item.Plain leaves := by
  have start : function.start symbols generated = generated.items.length + 5 := by
    simp [Function.start, preceding, prologue]
  have item (index : Nat) {item : Item} := @unit_prologue function symbols generated later index item
  -- Four lines follow the first one of the prologue.
  obtain rfl | rfl | rfl | rfl : place = generated.items.length + 1 ∨
      place = generated.items.length + 2 ∨ place = generated.items.length + 3 ∨
        place = generated.items.length + 4 := by omega
  · exact ⟨_, item 1 rfl, .entry _⟩
  · exact ⟨_, item 2 rfl, .words rfl rfl rfl⟩
  · exact ⟨_, item 3 rfl, .words rfl rfl rfl⟩
  · exact ⟨_, item 4 rfl, .words rfl rfl rfl⟩

/-- Behind the body the items are plain, up to the return. -/
theorem plain_leaving {place : Nat} (after : function.stop symbols generated < place)
    (before : place < function.stop symbols generated + 4) :
    ∃ item, (function.unit symbols generated later)[place]? = some item ∧ item.Plain leaves := by
  obtain ⟨rest, behind⟩ := function.unit_epilogue symbols generated later
  obtain rfl | rfl | rfl : place = function.stop symbols generated + 1 ∨
      place = function.stop symbols generated + 2 ∨
        place = function.stop symbols generated + 3 := by omega
  · exact ⟨_, behind 1, .mark _⟩
  · exact ⟨_, behind 2, .words rfl rfl rfl⟩
  · exact ⟨_, behind 3, .words rfl rfl rfl⟩

/-- From a place inside the body control goes where so many values are accounted for, and to the end
of the function only as it may arrive there. -/
def Continues (function : Function) (symbols : SymbolTable) (generated : Generated)
    (leaves : String → Nat) (place next held : Nat) : Prop :=
  function.Holds symbols generated leaves next held ∧
    (next = function.stop symbols generated + 1 → function.Arriving symbols generated place held)

section Continues

variable {index : Nat}

/-- The next item follows. -/
theorem continues_onward {held : Nat}
    (inner : index < (function.bodyCode symbols generated.nextLabel).length)
    (counted : (function.convention symbols generated leaves).counts
      ((function.bodyCode symbols generated.nextLabel).take (index + 1)) 0 = some held) :
    function.Continues symbols generated leaves (function.start symbols generated + index)
      (function.start symbols generated + index + 1) held := by
  have ends : function.stop symbols generated = function.start symbols generated +
    (function.bodyCode symbols generated.nextLabel).length := rfl
  exact ⟨.inside inner counted, by omega⟩

/-- A jump to the end of the function brings what is returned. -/
theorem continues_return (here : (function.bodyCode symbols generated.nextLabel)[index]? =
    some (operate .jmp [.target ⟨generated.nextLabel⟩])) :
    function.Continues symbols generated leaves (function.start symbols generated + index)
      (function.stop symbols generated + 1) (symbols.typeOf function.symbol).leaves :=
  ⟨.leaving (Nat.lt_succ_self _) (by omega) (Nat.le_refl _), fun _ => .inr ⟨index, rfl, here, rfl⟩⟩

/-- A jump inside the body goes to a label, where nothing is held. -/
theorem continues_jump (labelled : generated.Labelled)
    (balanced : (function.convention symbols generated leaves).Balanced
      (function.bodyCode symbols generated.nextLabel)) {place : Nat} {opcode : Opcode}
    {label : Label} (here : (function.bodyCode symbols generated.nextLabel)[index]? =
      some (operate opcode [.target label])) (jumps : opcode.jumps = true)
    (other : label ≠ ⟨generated.nextLabel⟩)
    (found : placeOf (function.unit symbols generated later) label = some place) :
    function.Continues symbols generated leaves (function.start symbols generated + index) place
      0 := by
  -- The label is marked inside of the body, since it is not the one of the end.
  have landed := @jump_lands function symbols generated later labelled index opcode label here jumps
  rcases landed with ⟨target, there, lands⟩ | ⟨same, -⟩
  · have within := (List.getElem?_eq_some_iff.mp there).1
    rw [lands] at found
    cases found
    refine ⟨.inside (Nat.le_of_lt within) (balanced.count_mark there), fun ended => ?_⟩
    rw [stop] at ended
    omega
  · exact absurd same other

end Continues

/-- A conditional jump goes on or to its label, and changes nothing on the stack. -/
theorem step_branch {items : List Item} {place next : Nat} {opcode : Opcode} {label : Label}
    {state after : Floats} (here : items[place]? = some (operate opcode [.target label]))
    (conditional : opcode = .je ∨ opcode = .jne)
    (stepped : (floating leaves).step items (place, state) = some (next, after)) :
    after.held = state.held ∧ (next = place + 1 ∨ placeOf items label = some next) := by
  obtain ⟨held, outcomes⟩ := state
  -- The outcome of the test decides, if there is one.
  rcases conditional with rfl | rfl <;> simp only [Machine.step, here, operate, floating] at stepped <;>
    rcases outcomes with - | ⟨- | -, rest⟩ <;> simp at stepped <;> grind

/-- A step inside a balanced body keeps to its account. -/
theorem step_inside {index next : Nat} {state after : Floats} (labelled : generated.Labelled)
    (balanced : (function.convention symbols generated leaves).Balanced
      (function.bodyCode symbols generated.nextLabel))
    (inner : index < (function.bodyCode symbols generated.nextLabel).length)
    (counted : (function.convention symbols generated leaves).counts
      ((function.bodyCode symbols generated.nextLabel).take index) 0 = some state.held)
    (stepped : (floating leaves).step (function.unit symbols generated later)
      (function.start symbols generated + index, state) = some (next, after)) :
    function.Continues symbols generated leaves (function.start symbols generated + index) next
      after.held := by
  obtain ⟨item, here⟩ : ∃ item, (function.bodyCode symbols generated.nextLabel)[index]? = some item :=
    ⟨_, List.getElem?_eq_getElem inner⟩
  have found := ((function.placed_bodyCode symbols generated later labelled).item here).1
  obtain ⟨held, passed, behind⟩ := balanced.count_item here counted
  have onward := continues_onward inner behind
  generalize before : state.held = count at passed
  -- The item says what becomes of the count: a jump carries it to its label, a branch keeps it,
  -- another instruction changes it.
  cases item with
  | code instruction =>
    cases Convention.passes_of_pass passed with
    | jump label =>
      have goes : placeOf (function.unit symbols generated later) label = some next ∧
          after.held = state.held := by
        simp only [Machine.step, found, Option.map_eq_some_iff, Prod.mk.injEq] at stepped
        obtain ⟨place, goes, rfl, rfl⟩ := stepped
        exact ⟨goes, rfl⟩
      have brings := goes.2.trans before
      by_cases ended : label = ⟨generated.nextLabel⟩
      · subst ended
        have last := function.placeOf_end symbols generated later labelled
        rw [goes.1] at last
        cases last
        rw [brings.trans (if_pos rfl)]
        exact continues_return here
      · rw [brings.trans (if_neg ended)]
        exact continues_jump labelled balanced here rfl ended goes.1
    | @branch opcode label conditional other =>
      obtain ⟨same, rfl | goes⟩ := step_branch found conditional stepped
      · exact (same.trans before) ▸ onward
      · have jumps : opcode.jumps = true := by rcases conditional with rfl | rfl <;> rfl
        rw [same, before]
        exact continues_jump labelled balanced here jumps other goes
    | act straight floats few =>
      have floats : instruction.float leaves state.held = some held := before ▸ floats
      have acts : (floating leaves).act instruction state = some { state with held } := by
        show (instruction.float leaves state.held).map _ = _
        rw [floats]
        rfl
      rw [Machine.step_act found straight, acts] at stepped
      cases stepped
      exact onward
  | mark label =>
    obtain ⟨rfl, zero⟩ := Option.ite_none_right_eq_some.mp passed
    cases zero
    simp only [Machine.step, found] at stepped
    cases stepped
    exact before ▸ onward
  | _ => cases passed

/-- A step of a function whose body is balanced keeps to its account. -/
theorem Holds.step {place next : Nat} {state after : Floats} (labelled : generated.Labelled)
    (balanced : (function.convention symbols generated leaves).Balanced
      (function.bodyCode symbols generated.nextLabel))
    (holds : function.Holds symbols generated leaves place state.held)
    (stepped : (floating leaves).step (function.unit symbols generated later) (place, state) =
      some (next, after)) :
    function.Holds symbols generated leaves next after.held ∧
      (next = function.stop symbols generated + 1 →
        function.Arriving symbols generated place after.held) := by
  have ends : function.stop symbols generated = function.start symbols generated +
    (function.bodyCode symbols generated.nextLabel).length := rfl
  generalize same : state.held = held at holds
  cases holds with
  | entering behind before =>
    obtain ⟨item, here, plain⟩ := plain_entering behind before
    rw [step_plain here plain] at stepped
    cases stepped
    rw [same]
    refine ⟨?_, by omega⟩
    rcases Nat.lt_or_ge (place + 1) (function.start symbols generated) with early | late
    · exact .entering (by omega) early
    · have first : place + 1 = function.start symbols generated + 0 := by omega
      rw [first]
      exact .inside (Nat.zero_le _) rfl
  | leaving behind before few =>
    rcases Nat.lt_or_eq_of_le before with early | rfl
    · obtain ⟨item, here, plain⟩ := plain_leaving behind early
      rw [step_plain here plain] at stepped
      cases stepped
      rw [same]
      exact ⟨.leaving (by omega) (by omega) few, by omega⟩
    · have here := @unit_return function symbols generated later
      simp [Machine.step, here, operate] at stepped
  | @inside index _ within counted =>
    rcases Nat.lt_or_eq_of_le within with inner | rfl
    · exact step_inside labelled balanced inner (same ▸ counted) stepped
    · -- Behind the body nothing is held, and an empty line comes before the end of the function.
      have here : (function.unit symbols generated later)[function.start symbols generated
          + (function.bodyCode symbols generated.nextLabel).length]? = some .blank := unit_blank
      rw [List.take_length, balanced] at counted
      cases counted
      simp only [Machine.step, here] at stepped
      cases stepped
      rw [same]
      exact ⟨.leaving (Nat.lt_succ_self _) (by omega) (Nat.zero_le _), fun _ => .inl ⟨rfl, rfl⟩⟩

/-- Along every run of a function whose body is balanced the stack holds what is accounted for. -/
theorem holds_run {state after : Floats} {start place : Nat} (labelled : generated.Labelled)
    (balanced : (function.convention symbols generated leaves).Balanced
      (function.bodyCode symbols generated.nextLabel))
    (holds : function.Holds symbols generated leaves start state.held)
    (run : (floating leaves).Steps (function.unit symbols generated later) (start, state)
      (place, after)) : function.Holds symbols generated leaves place after.held := by
  -- The account is kept from step to step, wherever the run has come to.
  generalize first : (start, state) = here at run
  generalize last : (place, after) = there at run
  induction run generalizing place after with
  | refl =>
    subst first
    cases last
    exact holds
  | @tail between _ _ stepped ih =>
    obtain ⟨middle, held⟩ := between
    rw [← last] at stepped
    exact ((ih rfl).step labelled balanced stepped).1

/-- An instruction that is passed finds the values it takes. -/
theorem finds_of_passes {convention : Convention} {instruction : Instruction} {held next : Nat}
    (passes : convention.Passes instruction held next) : instruction.opcode.floats.1 ≤ held := by
  cases passes with
  | jump => exact Nat.zero_le _
  | branch conditional => rcases conditional with rfl | rfl <;> exact Nat.zero_le _
  | act _ floats =>
    unfold Instruction.float at floats
    exact (Option.ite_none_right_eq_some.mp floats).1

/-- Wherever a run is, the instruction there finds the values it takes. -/
theorem Holds.finds {place held : Nat} {instruction : Instruction} (labelled : generated.Labelled)
    (balanced : (function.convention symbols generated leaves).Balanced
      (function.bodyCode symbols generated.nextLabel))
    (holds : function.Holds symbols generated leaves place held)
    (here : (function.unit symbols generated later)[place]? = some (.code instruction)) :
    instruction.opcode.floats.1 ≤ held := by
  -- In front of the body and behind it no instruction takes such values.
  have around (found : ∃ item, (function.unit symbols generated later)[place]? = some item ∧
      item.Plain leaves) : instruction.opcode.floats.1 ≤ held := by
    obtain ⟨item, there, plain⟩ := found
    rw [here] at there
    cases there
    cases plain with
    | words _ untouched _ => exact untouched ▸ Nat.zero_le _
  cases holds with
  | entering after before => exact around (plain_entering after before)
  | @inside index _ within counted =>
    rcases Nat.lt_or_eq_of_le within with inner | rfl
    · obtain ⟨next, passed, -⟩ := balanced.count_item (List.getElem?_eq_getElem inner) counted
      have found := ((function.placed_bodyCode symbols generated later labelled).item
        (List.getElem?_eq_getElem inner)).1
      rw [here] at found
      rw [← Option.some.inj found] at passed
      exact finds_of_passes (Convention.passes_of_pass passed)
    · have blank : (function.unit symbols generated later)[function.start symbols generated
          + (function.bodyCode symbols generated.nextLabel).length]? = some .blank := unit_blank
      rw [blank] at here
      cases here
  | leaving after before few =>
    rcases Nat.lt_or_eq_of_le before with early | rfl
    · exact around (plain_leaving after early)
    · rw [unit_return] at here
      cases here
      exact Nat.zero_le _

/-- Between its sites a function holds nothing. -/
theorem Holds.cut {place held : Nat} {before after : List Site}
    (balanced : ∀ site ∈ function.sites symbols generated.nextLabel,
      (function.convention symbols generated leaves).Balanced site.code)
    (holds : function.Holds symbols generated leaves place held)
    (sites : function.sites symbols generated.nextLabel = before ++ after)
    (here : place = function.start symbols generated + (codeAt before).length) : held = 0 := by
  have code : function.bodyCode symbols generated.nextLabel = codeAt before ++ codeAt after := by
    rw [← function.codeAt_sites, sites, codeAt_append]
  have ends : function.stop symbols generated = function.start symbols generated +
    (codeAt before ++ codeAt after).length := by rw [← code]; rfl
  rw [List.length_append] at ends
  cases holds with
  | entering | leaving => omega
  | @inside index _ within counted =>
    obtain rfl : index = (codeAt before).length := by omega
    -- The sites in front of the place are balanced together, so nothing is held behind them.
    have early : (function.convention symbols generated leaves).Balanced (codeAt before) :=
      Convention.balanced_codeAt fun site member =>
        balanced site (sites ▸ List.mem_append_left _ member)
    rw [code, List.take_left, early] at counted
    exact (Option.some.inj counted).symm

/-- A run that arrives at the end of a function comes from behind the body or from a return. -/
theorem Arriving.give {place held : Nat} {returned : Ty}
    (regular : ∀ site ∈ function.sites symbols generated.nextLabel,
      site.Regular returned ⟨generated.nextLabel⟩)
    (arriving : function.Arriving symbols generated place held) :
    place = function.stop symbols generated ∧ held = 0 ∨ ∃ before value progress after,
      function.sites symbols generated.nextLabel =
          before ++ .give value progress ⟨generated.nextLabel⟩ :: after ∧
        place = function.start symbols generated + (codeAt before).length + 1 ∧
        held = (symbols.typeOf function.symbol).leaves := by
  refine arriving.imp_right ?_
  rintro ⟨index, rfl, here, brings⟩
  rw [← function.codeAt_sites] at here
  obtain ⟨before, site, after, offset, sites, rfl, found⟩ := site_of_item here
  have member : site ∈ function.sites symbols generated.nextLabel := by simp [sites]
  obtain ⟨value, progress, rfl, rfl⟩ := (regular site member).give found
  exact ⟨before, value, progress, after, sites, (Nat.add_assoc _ _ _).symm, brings⟩

section Typed

variable {specifier : Specifier} {indirection : Nat} {parameters : List Ty} {variadic : Bool}

/-- The sites of a typed function go to its end only where it returns. -/
theorem Typed.regular (typed : function.Typed symbols specifier indirection parameters variadic)
    (nextLabel : Nat) : ∀ site ∈ function.sites symbols nextLabel,
      site.Regular (.scalar specifier indirection) ⟨nextLabel⟩ := by
  intro site member
  rcases function.origin symbols nextLabel site member with
    ⟨node, inside, progress, advances, -, own⟩ | ⟨statement, around, progress, stands, own⟩
  · exact own.regular (Nat.lt_of_succ_le advances.labels)
  · obtain ⟨looping, inner⟩ := typed.inside stands.listed
    have before : nextLabel < progress.nextLabel := Nat.lt_of_succ_le stands.advances.labels
    have same : around.function = ⟨nextLabel⟩ := stands.function
    refine same ▸ own.regular inner (same ▸ before) fun loop => ?_
    -- A loop around the statement has a label of its own.
    rcases stands.loop with absent | ⟨label, named, new⟩
    · rw [absent] at loop
      cases loop
    · rw [named, same] at loop
      cases loop
      exact absurd new (Nat.not_succ_le_self nextLabel)

/-- The sites of a typed function are balanced if its calls leave what is declared. -/
theorem Typed.balanced (typed : function.Typed symbols specifier indirection parameters variadic)
    (honest : ∀ callee arguments type, .call callee arguments type ∈ function.nodes →
      leaves (symbols.nameOf callee) = (symbols.typeOf callee).leaves) :
    ∀ site ∈ function.sites symbols generated.nextLabel,
      (function.convention symbols generated leaves).Balanced site.code := by
  intro site member
  refine Convention.balanced_site (typed.regular _ site member) ?_ ?_
  · show _ = (symbols.typeOf function.symbol).leaves
    rw [typed.declared]
    exact Ty.floats_promote specifier indirection
  -- The name of a callee is still that of its declaration where it is called.
  · rintro callee arguments type progress rfl
    obtain ⟨inside, advances⟩ := (function.within_sites symbols _ _ member).subjects _
      (List.mem_singleton_self _)
    have alike := (function.alike_entry symbols generated.nextLabel).trans advances.alike
    have left := honest callee arguments type inside
    cases typed.nodes _ inside with
    | call _ declared =>
      rw [declared] at left
      rw [SymbolTable.nameOf_eq_declared, alike.declared, ← SymbolTable.nameOf_eq_declared]
      exact left

end Typed

end Function

namespace Handed

variable (entry : Handed) (leaves : String → Nat) (later : List Item)

/-- The functions that are called leave on the floating-point stack what they are declared to
return. -/
def Honest : Prop :=
  ∀ callee arguments type, .call callee arguments type ∈ entry.function.nodes →
    leaves (entry.symbols.nameOf callee) = (entry.symbols.typeOf callee).leaves

/-- A run of a function from where it is entered, with nothing on the floating-point stack. -/
def RunsTo (outcomes : List Bool) (place : Nat) (state : Floats) : Prop :=
  (floating leaves).Steps (entry.unit later) (entry.generated.items.length + 1, ⟨0, outcomes⟩)
    (place, state)

/-- How a function uses the floating-point stack, whatever the outcomes of its tests. -/
structure Balances : Prop where
  /-- There are never more than two values. -/
  few : ∀ {outcomes place state}, entry.RunsTo leaves later outcomes place state → state.held ≤ 2
  /-- Every instruction finds the values it takes. -/
  finds : ∀ {outcomes place state instruction}, entry.RunsTo leaves later outcomes place state →
    (entry.unit later)[place]? = some (.code instruction) → instruction.opcode.floats.1 ≤ state.held
  /-- Between sites there are no values. -/
  cut : ∀ {outcomes place state before after}, entry.RunsTo leaves later outcomes place state →
    entry.sites = before ++ after → place = entry.behind before → state.held = 0
  /-- All statements begin and end between sites. -/
  statements : ∀ statement ∈ entry.function.statements,
    ∃ exits progress, statement.sites exits progress <:+: entry.sites
  /-- So do all expressions, or the pointers that lead to them. -/
  expressions : ∀ node ∈ entry.function.nodes, node.Among entry.sites
  /-- At the end of the function there is what a return brings, and nothing without one. -/
  ends : ∀ {outcomes place last state after}, entry.RunsTo leaves later outcomes place state →
    placeOf (entry.unit later) entry.exit = some last →
    (floating leaves).step (entry.unit later) (place, state) = some (last, after) →
    place = entry.behind entry.sites ∧ after.held = 0 ∨ ∃ before value progress rest,
      entry.sites = before ++ .give value progress entry.exit :: rest ∧
        place = entry.behind before + 1 ∧
        after.held = (entry.symbols.typeOf entry.function.symbol).leaves

end Handed

/-- Without a diagnostic, the floating-point stack is balanced along every run of every function, as
long as the functions that are called leave there what they are declared to return. -/
theorem compile_floats {options : Options} {file source : String} {compilation : Compilation}
    (compiled : compile options file source = .ok compilation)
    (silent : compilation.diagnostics = []) {leaves : String → Nat} :
    ∀ entry ∈ handedOver options source, entry.Honest leaves →
      ∀ later, entry.Balances leaves later := by
  obtain ⟨checker, vouches, quiet⟩ := vouches_compile compiled silent
  intro entry member honest later
  obtain ⟨specifier, indirection, parameters, variadic, typed⟩ := vouches.typed quiet entry member
  have labelled := (handedOver_written compiled entry member).labelled
  have each := @Function.Typed.balanced _ _ entry.generated leaves _ _ _ _ typed honest
  have balanced : (entry.function.convention entry.symbols entry.generated leaves).Balanced
      (entry.function.bodyCode entry.symbols entry.generated.nextLabel) := by
    rw [← entry.function.codeAt_sites]
    exact Convention.balanced_codeAt each
  have entered : entry.function.Holds entry.symbols entry.generated leaves
      (entry.generated.items.length + 1) 0 := by
    refine .entering (Nat.lt_succ_self _) ?_
    simp [Function.start, Function.preceding, prologue]
  have holds {outcomes : List Bool} {place : Nat} {state : Floats}
      (run : entry.RunsTo leaves later outcomes place state) :
      entry.function.Holds entry.symbols entry.generated leaves place state.held :=
    Function.holds_run labelled balanced entered run
  exact {
    few := fun run => (holds run).le_two
    finds := fun run here => (holds run).finds labelled balanced here
    cut := fun run sites here => (holds run).cut each sites here
    statements := fun statement inside => Function.infix_sites inside _
    expressions := fun node inside => Function.among_sites inside _
    ends := by
      intro outcomes place last state after run found stepped
      have ended := entry.function.placeOf_end entry.symbols entry.generated later labelled
      obtain rfl : last = _ := Option.some.inj (found.symm.trans ended)
      have arriving := ((holds run).step labelled balanced stepped).2 rfl
      have stop : entry.behind entry.sites =
          entry.function.stop entry.symbols entry.generated := entry.behind_sites
      rw [stop]
      exact arriving.give (typed.regular _) }

/-- A function that halves a number until it is zero, and calls itself for it. -/
def halveSource : String :=
  "double halve(double x) { while (x) { x = halve(x / 2.0); x++; } return x; }"

/-- The function leaves one value, and its own stack is balanced for it. -/
theorem compile_floats_halve :
    let leaves := fun name : String => if name = "halve" then 1 else 0
    compile { checkOnly := true } "halve.c" halveSource = .ok ⟨"", []⟩ ∧
      (handedOver { checkOnly := true } halveSource).length = 1 ∧
      ∀ entry ∈ handedOver { checkOnly := true } halveSource,
        entry.Honest leaves ∧ ∀ later, entry.Balances leaves later := by
  intro leaves
  have compiled : compile { checkOnly := true } "halve.c" halveSource = .ok ⟨"", []⟩ := by cbv
  -- No symbol that is named leaves more or less than declared, whether it is called or not.
  have checked : ((handedOver { checkOnly := true } halveSource).all fun entry =>
      (entry.function.nodes.filterMap Expression.symbol?).all fun symbol =>
        decide (leaves (entry.symbols.nameOf symbol) = (entry.symbols.typeOf symbol).leaves)) =
      true := by cbv
  refine ⟨compiled, by cbv, fun entry member => ?_⟩
  have honest : entry.Honest leaves := by
    intro callee arguments type inside
    have named : callee ∈ entry.function.nodes.filterMap Expression.symbol? :=
      List.mem_filterMap.mpr ⟨_, inside, rfl⟩
    exact of_decide_eq_true
      (List.all_eq_true.mp (List.all_eq_true.mp checked entry member) callee named)
  exact ⟨honest, compile_floats compiled rfl entry member honest⟩

end SmallC
