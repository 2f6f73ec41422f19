import Mathlib
import SmallC.Machine.Instruction

/-! Byte memory of a 32-bit machine, and the stretches of it that offsets from a base reach. -/

namespace SmallC

/-- The word that is left of a value of the width. -/
def Width.trim (width : Width) (value : BitVec 32) : BitVec 32 :=
  match width with
  | .byte => (value.extractLsb' 0 8).signExtend 32
  | .long | .double => value

/-- The byte at every address. -/
abbrev Memory := BitVec 32 → BitVec 8

namespace Memory

variable (memory : Memory)

/-- The word at an address, its lowest byte first. -/
def word (address : BitVec 32) : BitVec 32 :=
  memory (address + 3) ++ memory (address + 2) ++ memory (address + 1) ++ memory address

/-- The word that a value of the width is: bytes are signed. -/
def read (address : BitVec 32) : Width → BitVec 32
  | .byte => (memory address).signExtend 32
  | .long | .double => memory.word address

/-- The lowest bytes of a value are written, the lowest one first. -/
def write (address : BitVec 32) (size : Nat) (value : BitVec 32) : Memory := fun other =>
  let index := (other - address).toNat
  if index < size then value.extractLsb' (8 * index) 8 else memory other

theorem toNat_distance (address : BitVec 32) {index : Nat} (small : index < 2 ^ 32) :
    (address + BitVec.ofNat 32 index - address).toNat = index := by
  -- The sum wraps at most once, and the difference wraps back.
  have bound := address.isLt
  rw [BitVec.toNat_sub, BitVec.toNat_add, BitVec.toNat_ofNat]
  omega

/-- A written byte is the one of its place in the value. -/
theorem write_inside (address value : BitVec 32) (size index : Nat) (inside : index < size)
    (small : index < 4) :
    memory.write address size value (address + BitVec.ofNat 32 index) =
      value.extractLsb' (8 * index) 8 := by
  have distance : (address + BitVec.ofNat 32 index - address).toNat = index :=
    toNat_distance address (by omega)
  simp only [write, distance, if_pos inside]

/-- A written word is read back. -/
theorem word_write (address value : BitVec 32) :
    (memory.write address 4 value).word address = value := by
  have byte := memory.write_inside address value 4
  have lowest : memory.write address 4 value address = value.extractLsb' 0 8 := by
    simpa using byte 0 (by decide) (by decide)
  have second : memory.write address 4 value (address + 1) = value.extractLsb' 8 8 :=
    byte 1 (by decide) (by decide)
  have third : memory.write address 4 value (address + 2) = value.extractLsb' 16 8 :=
    byte 2 (by decide) (by decide)
  have highest : memory.write address 4 value (address + 3) = value.extractLsb' 24 8 :=
    byte 3 (by decide) (by decide)
  -- The four bytes lie next to each other in the value.
  have join (start first last : Nat) : value.extractLsb' (start + first) last ++
      value.extractLsb' start first = value.extractLsb' start (last + first) :=
    BitVec.extractLsb'_append_extractLsb'_eq_extractLsb' rfl
  unfold word
  rw [lowest, second, third, highest]
  calc
    _ = value.extractLsb' 16 16 ++ value.extractLsb' 8 8 ++ value.extractLsb' 0 8 := by
      rw [← join 16 8 8]
    _ = value.extractLsb' 8 24 ++ value.extractLsb' 0 8 := by rw [← join 8 8 16]
    _ = value.extractLsb' 0 32 := by rw [← join 0 8 24]
    _ = value := BitVec.extractLsb'_eq_self

/-- Memory is read as it was written. -/
theorem read_write (address value : BitVec 32) {width : Width} (whole : width ≠ .double) :
    (memory.write address width.size value).read address width = width.trim value := by
  -- A byte is the lowest one of its value, and a word is all four of them.
  cases width with
  | byte =>
    have lowest : memory.write address 1 value address = value.extractLsb' 0 8 := by
      simpa using memory.write_inside address value 1 0 (by decide) (by decide)
    exact congrArg (BitVec.signExtend 32) lowest
  | long => exact memory.word_write address value
  | double => contradiction

theorem write_write (address first second : BitVec 32) (size : Nat) :
    (memory.write address size first).write address size second =
      memory.write address size second := by
  -- Every byte is taken from the later value or from outside both.
  funext other
  simp only [write]
  split <;> rfl

end Memory

theorem lowest_setWidth (byte : BitVec 8) : (byte.setWidth 32).extractLsb' 0 8 = byte := by
  ext index small
  simp [BitVec.getLsbD_setWidth, small]
  omega

theorem lowest_signExtend (byte : BitVec 8) : (byte.signExtend 32).extractLsb' 0 8 = byte := by
  ext index small
  simp [BitVec.getLsbD_signExtend, small]
  omega

/-- Only the lowest byte of a value is written where there is room for one. -/
theorem Memory.write_byte (memory : Memory) (address : BitVec 32) {first second : BitVec 32}
    (same : first.extractLsb' 0 8 = second.extractLsb' 0 8) :
    memory.write address 1 first = memory.write address 1 second := by
  -- The only index there is room for is zero.
  funext other
  simp only [Memory.write]
  split
  · rename_i inside
    rw [Nat.lt_one_iff.mp inside]
    exact same
  · rfl

/-- What has been read has nothing left to lose. -/
theorem Width.trim_read (memory : Memory) (address : BitVec 32) (width : Width) :
    width.trim (memory.read address width) = memory.read address width := by
  cases width with
  | byte => exact congrArg (BitVec.signExtend 32) (lowest_signExtend _)
  | long | double => rfl

/-- The addresses at offsets from a base, from the lower bound on and below the upper one. -/
def Span (base : BitVec 32) (low high : Int) (address : BitVec 32) : Prop :=
  ∃ offset, low ≤ offset ∧ offset < high ∧ address = base + BitVec.ofInt 32 offset

/-- No byte of a value at the address is between the bounds. -/
def Clear (base : BitVec 32) (low high : Int) (address : BitVec 32) (width : Width) : Prop :=
  ∀ index < width.size, ¬ Span base low high (address + BitVec.ofNat 32 index)

/-- Memory that is the same except at offsets between the bounds. -/
def Unchanged (base : BitVec 32) (low high : Int) (old new : Memory) : Prop :=
  ∀ address, ¬ Span base low high address → new address = old address

section

variable {base : BitVec 32} {low middle high lower higher : Int} {old between new : Memory}

theorem Span.mono {address : BitVec 32} (span : Span base low high address) (below : lower ≤ low)
    (above : high ≤ higher) : Span base lower higher address := by
  obtain ⟨offset, least, most, same⟩ := span
  exact ⟨offset, by omega, by omega, same⟩

/-- Different offsets reach different addresses as long as they are less than a wrap apart. -/
theorem ofInt_injective {first second : Int} (near : first - second < 2 ^ 32)
    (far : second - first < 2 ^ 32) (same : BitVec.ofInt 32 first = BitVec.ofInt 32 second) :
    first = second := by
  -- Both words are remainders of the offsets by the size of the address space.
  have numbers := congrArg BitVec.toNat same
  rw [BitVec.toNat_ofInt, BitVec.toNat_ofInt] at numbers
  omega

theorem offset_add (base : BitVec 32) (offset : Int) (index : Nat) :
    base + BitVec.ofInt 32 offset + BitVec.ofNat 32 index =
      base + BitVec.ofInt 32 (offset + index) := by
  rw [BitVec.add_assoc, ← BitVec.ofInt_natCast, ← BitVec.ofInt_add]

/-- A value in the frame is clear of everything below it. -/
theorem clear_slot (fits : high - low ≤ 2 ^ 32) {offset : Int} {width : Width}
    (above : middle ≤ offset) (most : offset + width.size ≤ high) :
    Clear base low middle (base + BitVec.ofInt 32 offset) width := by
  -- An address between the bounds would be that of a second offset, less than a wrap away.
  intro index inside
  rw [offset_add]
  rintro ⟨other, lowest, highest, same⟩
  have equal : offset + index = other := by
    refine ofInt_injective ?_ ?_ ((BitVec.add_right_inj _).mp same)
    all_goals omega
  omega

theorem Unchanged.refl : Unchanged base low high old old := fun _ _ => rfl

theorem Unchanged.mono (unchanged : Unchanged base low high old new) (below : lower ≤ low)
    (above : high ≤ higher) : Unchanged base lower higher old new := by
  intro address outside
  exact unchanged address fun span => outside (span.mono below above)

theorem Unchanged.trans (early : Unchanged base low high old between)
    (late : Unchanged base low high between new) : Unchanged base low high old new := by
  intro address outside
  rw [late address outside, early address outside]

/-- Writing changes only the bytes written. -/
theorem unchanged_write (memory : Memory) (offset : Int) (size : Nat) (value : BitVec 32) :
    Unchanged base offset (offset + size) memory
      (memory.write (base + BitVec.ofInt 32 offset) size value) := by
  -- An address that is written to is as far from the first one as its offset is.
  intro address outside
  unfold Memory.write
  dsimp only
  split
  · rename_i inside
    refine absurd ?_ outside
    refine ⟨offset + (address - (base + BitVec.ofInt 32 offset)).toNat, by omega, by omega, ?_⟩
    rw [← offset_add, BitVec.ofNat_toNat, BitVec.setWidth_eq, BitVec.add_comm,
      BitVec.sub_add_cancel]
  · rfl

/-- What is clear of the changes is read as before. -/
theorem Unchanged.read (unchanged : Unchanged base low high old new) {address : BitVec 32}
    {width : Width} (clear : Clear base low high address width) :
    new.read address width = old.read address width := by
  -- Each of the bytes that are read is outside the changes.
  have byte (index : Nat) (inside : index < width.size) :
      new (address + BitVec.ofNat 32 index) = old (address + BitVec.ofNat 32 index) :=
    unchanged _ (clear index inside)
  have lowest : 0 < width.size → new address = old address := by
    intro inside
    simpa using byte 0 inside
  cases width with
  | byte => exact congrArg (BitVec.signExtend 32) (lowest (by decide))
  | long | double =>
    have second : new (address + 1) = old (address + 1) := byte 1 (by decide)
    have third : new (address + 2) = old (address + 2) := byte 2 (by decide)
    have highest : new (address + 3) = old (address + 3) := byte 3 (by decide)
    simp only [Memory.read, Memory.word, lowest (by decide), second, third, highest]

end

end SmallC
