import SmallC.Proofs.Execution.Source
import SmallC.Proofs.Words.Operators

/-! Values in temporaries: what is computed later changes only temporaries further down. -/

namespace SmallC

variable {layout : Layout}

namespace Processor

/-- Only temporaries between the bounds differ, and registers that do not last. -/
structure Keeps (low high : Int) (old new : Processor) : Prop where
  /-- The base of the frame is the same. -/
  ebp : new.ebp = old.ebp
  /-- The end of the frame is the same. -/
  esp : new.esp = old.esp
  /-- Memory is the same outside the temporaries. -/
  memory : Unchanged old.ebp low high old.memory new.memory

/-- The operand has the value as long as only temporaries below the limit change. -/
def Holds (layout : Layout) (low limit : Int) (state : Processor) (operand : Operand)
    (width : Width) (value : BitVec 32) : Prop :=
  ∀ other : Processor, other.ebp = state.ebp →
    Unchanged state.ebp low limit state.memory other.memory →
      other.loads? layout operand width = some value

variable {low limit lower higher high : Int} {first second third state : Processor}
  {operand : Operand} {width : Width} {value : BitVec 32}

theorem Keeps.refl (state : Processor) : state.Keeps low high state := ⟨rfl, rfl, .refl⟩

theorem Keeps.trans (early : first.Keeps low high second) (late : second.Keeps low high third) :
    first.Keeps low high third := by
  -- The base of the frame does not move meanwhile.
  refine ⟨late.ebp.trans early.ebp, late.esp.trans early.esp, early.memory.trans ?_⟩
  rw [← early.ebp]
  exact late.memory

theorem Keeps.mono (keeps : first.Keeps low high second) (below : lower ≤ low)
    (above : high ≤ higher) : first.Keeps lower higher second :=
  ⟨keeps.ebp, keeps.esp, keeps.memory.mono below above⟩

theorem Beside.keeps (beside : first.Beside second) : first.Keeps low high second := by
  refine ⟨beside.ebp, beside.esp, ?_⟩
  intro address _
  rw [beside.memory]

/-- What only the temporaries below the limit may change can be shown at any time. -/
theorem Holds.shows (holds : state.Holds layout low limit operand width value) :
    state.Shows layout operand width value := by
  intro other base same
  refine holds other base ?_
  intro address _
  rw [same]

/-- A value stays while temporaries below it are written. -/
theorem Holds.keeps (holds : first.Holds layout low limit operand width value)
    (keeps : first.Keeps low limit second) : second.Holds layout low limit operand width value := by
  -- A later state differs from the first one in no more than from the second one.
  intro other base unchanged
  refine holds other (base.trans keeps.ebp) (keeps.memory.trans ?_)
  rwa [← keeps.ebp]

/-- Loading storage brings what is read there. -/
theorem loads_storage {address : BitVec 32} (word : width ≠ .double)
    (there : state.address? layout operand = some address) :
    state.loads? layout operand width = some (state.memory.read address width) := by
  -- Storage is no immediate, so its width alone decides how it is loaded.
  have storage : operand.isImmediate = false := by
    cases operand <;> first | rfl | contradiction
  cases width with
  | double => contradiction
  | byte | long =>
    cases operand <;> first
      | contradiction
      | simp [loads?, getByte?, getWord?, Operand.isImmediate, there, Memory.read]

/-- A temporary has what was written to it until it is written again. -/
theorem holds_slot {offset : Int} {top : Int} (word : width ≠ .double)
    (fits : top - low ≤ 2 ^ 32) (above : limit ≤ offset) (below : offset + width.size ≤ top)
    (there : state.memory.read (state.ebp + BitVec.ofInt 32 offset) width = value) :
    state.Holds layout low limit (.frame offset) width value := by
  -- The slot is above everything that may still be written.
  intro other base unchanged
  have clear : Clear state.ebp low limit (state.ebp + BitVec.ofInt 32 offset) width :=
    clear_slot fits above below
  rw [loads_storage word rfl, base, unchanged.read clear, there]

end Processor

/-- From a state, a piece of source goes onward and leaves the value in the operand, writing nothing
but temporaries between the bounds. -/
def Computes (layout : Layout) (low : Int) (piece : Behaviour Processor) (before : Processor)
    (bottom top : Int) (operand : Operand) (width : Width) (value : BitVec 32) : Prop :=
  ∃ after, piece before .onward after ∧ before.Keeps bottom top after ∧
    after.Holds layout low bottom operand width value

section

variable {low bottom between top offset : Int} {piece : Behaviour Processor}
  {before middle : Processor} {width : Width} {value : BitVec 32} {own : Code}

/-- A value that is stored is there from then on, whatever temporaries are below the bottom. -/
theorem Stores.finishes (stores : Stores layout own middle offset width.size value)
    (word : width ≠ .double) (fits : top - low ≤ 2 ^ 32) (kept : before.Keeps between top middle)
    (lower : bottom ≤ between) (above : bottom ≤ offset) (below : offset + width.size ≤ top) :
    ∃ after, layout.machine.visit own middle .onward after ∧ before.Keeps bottom top after ∧
      after.Holds layout low bottom (.frame offset) width (width.trim value) := by
  -- The store is the only write, and it is between the bounds.
  obtain ⟨after, executed, base, limit, memory⟩ := stores
  have written : middle.Keeps offset (offset + width.size) after := by
    refine ⟨base, limit, ?_⟩
    rw [memory]
    exact unchanged_write _ _ _ _
  have there : after.memory.read (after.ebp + BitVec.ofInt 32 offset) width = width.trim value := by
    rw [memory, base]
    exact Memory.read_write _ _ _ word
  refine ⟨after, visit_of_execute executed, ?_, ?_⟩
  · exact (kept.mono lower (Int.le_refl _)).trans (written.mono above below)
  · exact Processor.holds_slot word fits above below there

/-- Comparing a computed value with zero decides whether it is different. -/
theorem Computes.tests {operand : Operand} {type : Ty}
    (computes : Computes layout low piece before bottom top operand (Width.of type) value)
    (word : type.isReal = false) : ∃ after,
      (piece.andThen (layout.machine.visit (compareZero operand type))) before .onward after ∧
        before.Keeps bottom top after ∧ layout.machine.nonzero after = some (value != 0, after) := by
  -- The comparison changes registers and conditions only.
  obtain ⟨middle, begun, kept, holds⟩ := computes
  obtain ⟨after, executed, beside, flags⟩ := execute_compareZero word holds.shows
  refine ⟨after, .inl ⟨middle, begun, visit_of_execute executed⟩, kept.trans beside.keeps, ?_⟩
  show after.flags.map _ = _
  rw [flags]
  rfl

end

/-- The store of a truth value. -/
def settling (holds : Bool) (result : Operand) : Code :=
  [operate .movl [immediate (if holds then 1 else 0), result]]

/-- A truth value is stored in the topmost temporary. -/
theorem settles {low bottom between top : Int} {before middle : Processor} (holds : Bool)
    (fits : top - low ≤ 2 ^ 32) (kept : before.Keeps between top middle) (lower : bottom ≤ between)
    (above : bottom ≤ top - 4) : ∃ after,
      layout.machine.visit (settling holds (.frame (top - 4))) middle .onward after ∧
        before.Keeps bottom top after ∧
          after.Holds layout low bottom (.frame (top - 4)) .long (truth holds) := by
  -- One and zero are written as words.
  have stores : Stores layout (settling holds (.frame (top - 4))) middle (top - 4) 4
      (truth holds) := by
    cases holds <;> exact ⟨middle.stored (top - 4) 4 (truth _), rfl, rfl, rfl, rfl⟩
  have word : Width.long ≠ .double := by simp
  have below : top - 4 + (4 : Nat) ≤ top := by omega
  exact stores.finishes word fits kept lower above below

section

variable {σ : Type} {machine : Machine σ}

theorem choose_nonzero {yes no : Behaviour σ} {state after : σ} {how : Ending}
    (known : machine.nonzero state = some (true, state)) (taken : yes state how after) :
    machine.choose yes no state how after := by
  unfold Machine.choose
  rwa [known]

theorem choose_zero {yes no : Behaviour σ} {state after : σ} {how : Ending}
    (known : machine.nonzero state = some (false, state)) (taken : no state how after) :
    machine.choose yes no state how after := by
  unfold Machine.choose
  rwa [known]

namespace Expression

variable {either holds : Bool} {left right : Expression} {type : Ty} {progress : Progress}
  {first second : Behaviour σ} {before early late after : σ}

/-- The left operand of a decision decides. -/
theorem decides_left
    (begun : (first.andThen (machine.visit (left.comparison (progress.enter type)))) before
      .onward early)
    (outcome : machine.nonzero early = some (either, early))
    (settled : machine.visit (settling either (progress.skip.skip.slot type)) early .onward
      after) :
    decides machine either left right type progress first second before .onward after := by
  -- The first jump goes where the truth value of this outcome is stored.
  rw [decides, ← Behaviour.andThen_assoc]
  refine .inl ⟨early, begun, ?_⟩
  cases either with
  | false => exact choose_zero outcome settled
  | true => exact choose_nonzero outcome settled

/-- The right operand of a decision decides when the left one does not. -/
theorem decides_right
    (begun : (first.andThen (machine.visit (left.comparison (progress.enter type)))) before
      .onward early)
    (undecided : machine.nonzero early = some (!either, early))
    (ended : (second.andThen (machine.visit
      (right.comparison (left.after (progress.enter type))))) early .onward late)
    (outcome : machine.nonzero late = some (holds, late))
    (settled : machine.visit (settling holds (progress.skip.skip.slot type)) late .onward
      after) :
    decides machine either left right type progress first second before .onward after := by
  -- The first jump is not taken for this outcome, and the second one decides.
  rw [decides, ← Behaviour.andThen_assoc]
  refine .inl ⟨early, begun, ?_⟩
  rw [← Behaviour.andThen_assoc]
  cases either with
  | false =>
    refine choose_nonzero undecided (.inl ⟨late, ended, ?_⟩)
    cases holds with
    | false => exact choose_zero outcome settled
    | true => exact choose_nonzero outcome settled
  | true =>
    refine choose_zero undecided (.inl ⟨late, ended, ?_⟩)
    cases holds with
    | false => exact choose_zero outcome settled
    | true => exact choose_nonzero outcome settled

end Expression

end

end SmallC
