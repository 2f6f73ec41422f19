import SmallC.Proofs.Calls.Passing
import SmallC.Proofs.Lowering.Nodes
import SmallC.Proofs.Typing.Rules

/-! Slots: stretches of a frame, and which of them emitted code reads and writes by its operands. -/

namespace SmallC

/-- A stretch of memory, placed relative to the base of a frame. -/
structure Slot where
  /-- Where it starts. -/
  offset : Int
  /-- How long it is. -/
  bytes : Nat
  deriving DecidableEq, Repr

namespace Slot

/-- Where a slot ends. -/
def stop (slot : Slot) : Int := slot.offset + slot.bytes

/-- A slot lies inside another one. -/
structure Within (inner outer : Slot) : Prop where
  /-- It does not start before the other one. -/
  starts : outer.offset ≤ inner.offset
  /-- It does not end behind the other one. -/
  stops : inner.stop ≤ outer.stop

/-- Two slots have no byte in common. -/
def Apart (first second : Slot) : Prop :=
  first.stop ≤ second.offset ∨ second.stop ≤ first.offset

theorem Within.refl (slot : Slot) : slot.Within slot := ⟨Int.le_refl _, Int.le_refl _⟩

theorem Within.trans {first second third : Slot} (inner : first.Within second)
    (outer : second.Within third) : first.Within third :=
  ⟨Int.le_trans outer.starts inner.starts, Int.le_trans inner.stops outer.stops⟩

/-- The first bytes of a slot are inside it. -/
theorem within_first {offset : Int} {bytes more : Nat} (fewer : bytes ≤ more) :
    Within ⟨offset, bytes⟩ ⟨offset, more⟩ := by
  refine ⟨Int.le_refl _, ?_⟩
  simp only [stop]
  omega

end Slot

/-- Slots that are handed out downwards, each ending where the one before it starts. -/
inductive Stacked : (top : Int) → List Slot → (bottom : Int) → Prop where
  /-- Nothing is handed out. -/
  | nil (offset : Int) : Stacked offset [] offset
  /-- The first slot ends at the top. -/
  | cons {slot : Slot} {rest : List Slot} {bottom : Int}
    (stacked : Stacked slot.offset rest bottom) : Stacked slot.stop (slot :: rest) bottom

namespace Stacked

variable {top middle bottom : Int} {slots others : List Slot}

theorem append (early : Stacked top slots middle) (late : Stacked middle others bottom) :
    Stacked top (slots ++ others) bottom := by
  induction early with
  | nil => exact late
  | cons _ ih => exact .cons (ih late)

theorem single (slot : Slot) : Stacked slot.stop [slot] slot.offset := .cons (.nil _)

theorem bottom_le (stacked : Stacked top slots bottom) : bottom ≤ top := by
  induction stacked with
  | nil => exact Int.le_refl _
  | @cons slot _ _ _ ih =>
    simp only [Slot.stop]
    omega

/-- The slots lie between the top and the bottom. -/
theorem bounds (stacked : Stacked top slots bottom) :
    ∀ slot ∈ slots, bottom ≤ slot.offset ∧ slot.stop ≤ top := by
  -- Each slot lies right above the others, so those are bounded by where it starts.
  induction stacked with
  | nil => simp
  | @cons first rest bottom below ih =>
    intro slot member
    rcases List.mem_cons.mp member with rfl | member
    · exact ⟨below.bottom_le, Int.le_refl _⟩
    · obtain ⟨low, high⟩ := ih slot member
      simp only [Slot.stop] at high ⊢
      omega

/-- No two of the slots overlap. -/
theorem apart (stacked : Stacked top slots bottom) : slots.Pairwise Slot.Apart := by
  -- All later slots end at or below the offset of the first one.
  induction stacked with
  | nil => exact .nil
  | cons below ih => exact .cons (fun slot member => .inr (below.bounds slot member).2) ih

end Stacked

/-- Where an operand reaches into a frame of the size: from its base, or from its end below. -/
def Operand.offset? (size : Nat) : Operand → Option Int
  | .frame offset => some offset
  | .outgoing offset => some (offset - size)
  | .indirect .ebp => some 0
  | .indirect .esp => some (-size)
  | _ => none

/-- Where an argument of an instruction reaches into a frame of the size. -/
def Argument.offset? (size : Nat) : Argument → Option Int
  | .operand place => place.offset? size
  | _ => none

/-- How many bytes an operation reads or writes at an operand that is in memory. -/
def Opcode.accessed : Opcode → Nat
  | .sete | .setne | .setl | .setg | .setle | .setge | .setb | .seta | .setbe | .setae
  | .movzbl => 1
  | .fnstsw => 2
  | .faddl | .fsubl | .fmull | .fdivl | .fcompl => 8
  | opcode => opcode.bytes

/-- The slots of a frame of the size that an item reads or writes by its operands. -/
def Item.accesses (size : Nat) : Item → List Slot
  | .code instruction =>
    -- An address is taken without looking at what is there.
    if instruction.opcode = .leal then []
    else instruction.arguments.filterMap fun argument =>
      (argument.offset? size).map (⟨·, instruction.opcode.accessed⟩)
  | _ => []

/-- How many bytes are read or written at a time. -/
def accessWidths : List Nat := [1, 4, 8]

/-- Only the floating-point conditions are stored in another width, and that is never in memory. -/
theorem accessed_mem {opcode : Opcode} (other : opcode ≠ .fnstsw) :
    opcode.accessed ∈ accessWidths := by
  revert other
  cases opcode <;> decide

/-- Whether a register holds the base or the end of the frame. -/
def Register.holdsFrame : Register → Bool
  | .ebp | .esp => true
  | _ => false

/-- Whether an argument is a register that holds the base or the end of the frame. -/
def Argument.holdsFrame : Argument → Bool
  | .register named => named.holdsFrame
  | _ => false

/-- Whether an item names a register that holds the base or the end of the frame. -/
def Item.holdsFrame : Item → Bool
  | .code instruction => instruction.arguments.any Argument.holdsFrame
  | _ => false

/-- An item leaves the frame where it is, and reads and writes only inside its slots. -/
structure Item.Stays (size : Nat) (slots : List Slot) (item : Item) : Prop where
  /-- The registers that hold the frame are left alone. -/
  frame : item.holdsFrame = false
  /-- All that is read or written in the frame is inside a slot. -/
  accesses : ∀ access ∈ item.accesses size,
    access.bytes ∈ accessWidths ∧ ∃ slot ∈ slots, access.Within slot

/-- Code leaves the frame where it is, and reads and writes only inside its slots. -/
def Stays (size : Nat) (slots : List Slot) (code : Code) : Prop :=
  ∀ item ∈ code, item.Stays size slots

/-- So many bytes at an operand are inside one of the slots, if they are in the frame at all. -/
def Operand.Fits (size : Nat) (slots : List Slot) (bytes : Nat) (operand : Operand) : Prop :=
  ∀ offset, operand.offset? size = some offset → ∃ slot ∈ slots, Slot.Within ⟨offset, bytes⟩ slot

/-- What an operation may have as an argument if it is to stay in the slots. -/
def Argument.Fits (size : Nat) (slots : List Slot) (opcode : Opcode) (argument : Argument) : Prop :=
  argument.holdsFrame = false ∧ (opcode = .leal ∨ ∀ offset, argument.offset? size = some offset →
    opcode.accessed ∈ accessWidths ∧ ∃ slot ∈ slots, Slot.Within ⟨offset, opcode.accessed⟩ slot)

section Stays

variable {size : Nat} {slots others : List Slot}

theorem Operand.Fits.fewer {operand : Operand} {bytes less : Nat}
    (fits : operand.Fits size slots bytes) (fewer : less ≤ bytes) :
    operand.Fits size slots less := by
  intro offset reached
  obtain ⟨slot, member, within⟩ := fits offset reached
  exact ⟨slot, member, (Slot.within_first fewer).trans within⟩

theorem Operand.Fits.mono {operand : Operand} {bytes : Nat} (fits : operand.Fits size slots bytes)
    (more : slots ⊆ others) : operand.Fits size others bytes := by
  intro offset reached
  obtain ⟨slot, member, within⟩ := fits offset reached
  exact ⟨slot, more member, within⟩

/-- What is in no frame fits anywhere. -/
theorem Operand.fits_of_none {operand : Operand} (bytes : Nat)
    (outside : operand.offset? size = none) : operand.Fits size slots bytes := by
  intro offset reached
  rw [outside] at reached
  cases reached

@[simp] theorem Operand.fits_immediate (bytes value : Nat) :
    (SmallC.immediate value).Fits size slots bytes := fits_of_none bytes rfl

@[simp] theorem Operand.fits_eax (bytes : Nat) :
    (Operand.indirect .eax).Fits size slots bytes := fits_of_none bytes rfl

theorem Operand.fits_frame {offset : Int} {bytes : Nat} {slot : Slot} (member : slot ∈ slots)
    (within : Slot.Within ⟨offset, bytes⟩ slot) :
    (Operand.frame offset).Fits size slots bytes := by
  intro reached same
  cases same
  exact ⟨slot, member, within⟩

@[simp] theorem Argument.fits_register {opcode : Opcode} {register : Register} :
    (Argument.register register).Fits size slots opcode ↔ register ≠ .ebp ∧ register ≠ .esp := by
  have none (offset : Int) : (Argument.register register).offset? size ≠ some offset :=
    fun reached => nomatch reached
  cases register <;> simp [Fits, holdsFrame, Register.holdsFrame, none]

@[simp] theorem Argument.fits_target (opcode : Opcode) (label : Label) :
    (Argument.target label).Fits size slots opcode :=
  ⟨rfl, .inr fun _ reached => nomatch reached⟩

@[simp] theorem Argument.fits_callee (opcode : Opcode) (name : String) :
    (Argument.callee name).Fits size slots opcode :=
  ⟨rfl, .inr fun _ reached => nomatch reached⟩

@[simp] theorem Argument.fits_operand {operand : Operand} {opcode : Opcode}
    (other : opcode ≠ .fnstsw) : (Argument.operand operand).Fits size slots opcode ↔
      opcode = .leal ∨ operand.Fits size slots opcode.accessed := by
  refine ⟨fun fits => fits.2.imp_right fun inside offset reached => (inside offset reached).2,
    fun fits => ⟨rfl, fits.imp_right fun inside offset reached => ?_⟩⟩
  exact ⟨accessed_mem other, inside offset reached⟩

@[simp] theorem stays_nil : Stays size slots [] := by simp [Stays]

@[simp] theorem stays_cons {item : Item} {code : Code} :
    Stays size slots (item :: code) ↔ item.Stays size slots ∧ Stays size slots code :=
  List.forall_mem_cons

@[simp] theorem stays_append {first second : Code} :
    Stays size slots (first ++ second) ↔ Stays size slots first ∧ Stays size slots second :=
  List.forall_mem_append

/-- A label reads and writes nothing. -/
@[simp] theorem stays_mark (label : Label) : (Item.mark label).Stays size slots :=
  ⟨rfl, by simp [Item.accesses]⟩

/-- An instruction stays in the slots when its arguments fit. -/
@[simp] theorem stays_operate {opcode : Opcode} {arguments : List Argument} :
    (operate opcode arguments).Stays size slots ↔
      ∀ argument ∈ arguments, argument.Fits size slots opcode := by
  constructor
  · rintro ⟨frame, accesses⟩ argument listed
    refine ⟨Bool.eq_false_iff.mpr fun holds => ?_, ?_⟩
    · exact Bool.eq_false_iff.mp frame (List.any_eq_true.mpr ⟨argument, listed, holds⟩)
    -- An address is only formed, so nothing is read or written there.
    · by_cases address : opcode = .leal
      · exact .inl address
      · refine .inr fun offset reached => accesses ⟨offset, opcode.accessed⟩ ?_
        simp only [operate, Item.accesses, if_neg address]
        exact List.mem_filterMap.mpr ⟨argument, listed, by rw [reached]; rfl⟩
  · intro fits
    refine ⟨?_, fun access listed => ?_⟩
    · simp only [operate, Item.holdsFrame, List.any_eq_false]
      exact fun argument listed => Bool.eq_false_iff.mp (fits argument listed).1
    · simp only [operate, Item.accesses] at listed
      split at listed
      · cases listed
      · next other =>
        obtain ⟨argument, named, found⟩ := List.mem_filterMap.mp listed
        obtain ⟨offset, reached, rfl⟩ := Option.map_eq_some_iff.mp found
        exact (fits argument named).2.resolve_left other offset reached

end Stays

end SmallC
