import SmallC.Proofs.Frames.Requests

/-! Bookkeeping: whatever is asked of a frame and in whatever order, it hands out every byte below the
base once, never moves what has been placed, and is as large as it has to be. -/

namespace SmallC

/-! Requests one after the other. -/

namespace Placing

variable {placing : Placing}

/-- Requests hand out slots one below the other. -/
theorem stacked (placing : Placing) (ops : List FrameOp) :
    Stacked placing.frame.offset (placing.handed ops) (placing.after ops).frame.offset := by
  -- Each request starts where the one before has ended.
  induction ops generalizing placing with
  | nil => exact .nil _
  | cons op rest ih => exact (op.stacked placing).append (ih (op.perform placing))

/-- Requests make room for the largest of their reservations. -/
theorem arguments_after (placing : Placing) (ops : List FrameOp) :
    (placing.after ops).frame.arguments = max placing.frame.arguments (largestReserve ops) := by
  induction ops generalizing placing with
  | nil => exact (Nat.max_zero _).symm
  | cons op rest ih =>
    have later := ih (op.perform placing)
    rw [op.arguments_perform, Nat.max_assoc] at later
    exact later

/-- Requests change at most the places of symbols. -/
theorem alike_after (placing : Placing) (ops : List FrameOp) :
    placing.symbols.Alike (placing.after ops).symbols := by
  induction ops generalizing placing with
  | nil => exact .refl _
  | cons op rest ih => exact (op.alike_perform placing).trans (ih (op.perform placing))

/-- A symbol that no request binds stays as it is. -/
theorem symbol_after {ops : List FrameOp} {id : SymbolId}
    (free : id ∉ ops.flatMap (·.binds placing.symbols)) :
    (placing.after ops).symbols.symbol? id = placing.symbols.symbol? id := by
  induction ops generalizing placing with
  | nil => rfl
  | cons op rest ih =>
    rw [List.flatMap_cons, List.mem_append, not_or] at free
    have here := FrameOp.symbol_perform free.1
    -- Binding some symbols does not change which ones the others bind.
    have later := @ih (op.perform placing) (by
      simpa only [FrameOp.binds_alike (op.alike_perform placing)] using free.2)
    exact later.trans here

end Placing

/-- The largest reservation is one of those that can be asked for. -/
theorem largestReserve_lt (ops : List FrameOp) : largestReserve ops < UInt32.size := by
  unfold largestReserve
  induction ops with
  | nil => exact Nat.zero_lt_succ _
  | cons op rest ih =>
    -- Only the bytes for arguments are reserved, and their count is a word.
    have here : op.reserves < UInt32.size := by
      cases op with
      | arguments count => exact count.toNat_lt
      | parameters | locals | bytes => exact Nat.zero_lt_succ _
    exact Nat.max_lt.mpr ⟨here, ih⟩

/-- What becomes of requests to a frame: every byte that is handed out has one owner for good. -/
structure Placing.Booked (start : Placing) (ops : List FrameOp) : Prop where
  /-- No two of the slots overlap. -/
  apart : (start.handed ops).Pairwise Slot.Apart
  /-- All slots end at the base or below. -/
  below : ∀ slot ∈ start.handed ops, slot.stop ≤ 0
  /-- Every byte from the offset of the frame up to the base is in one slot, and no other byte is. -/
  covers : ∀ byte : Int,
    (start.handed ops).countP (fun slot => slot.offset ≤ byte ∧ byte < slot.stop) =
      if (start.after ops).frame.offset ≤ byte ∧ byte < 0 then 1 else 0
  /-- The size keeps the stack aligned. -/
  aligned : (start.after ops).frame.size % 16 = 8
  /-- There is room for all slots and for the arguments of every call. -/
  room : slotBytes (start.handed ops) + largestReserve ops ≤ (start.after ops).frame.size
  /-- No smaller size would do. -/
  least : ∀ size : Nat, size % 16 = 8 → slotBytes (start.handed ops) + largestReserve ops ≤ size →
    (start.after ops).frame.size ≤ size
  /-- All offsets are signed words of 64 bits, and so are sizes without a sign. -/
  words : (∀ slot ∈ start.handed ops, (start.after ops).frame.offset ≤ slot.offset) ∧
    -2 ^ 63 < (start.after ops).frame.offset ∧ (start.after ops).frame.size < 2 ^ 64
  /-- Variables are in the end where their request has put them. -/
  locals : ∀ early scope skip late, ops = early ++ .locals scope skip :: late →
    FrameOp.handed (start.after early) (.locals scope skip) =
      ((start.symbols.ids scope).drop skip).map ((start.after ops).symbols.placed storageSize)
  /-- Parameters are in the end one behind the other above the base, and take nothing of the frame. -/
  parameters : ∀ early scope count late, ops = early ++ .parameters scope count :: late →
    let slots := ((start.symbols.ids scope).take count).map
      ((start.after ops).symbols.placed Ty.parameterBytes)
    (start.after (early ++ [.parameters scope count])).frame = (start.after early).frame ∧
      Climbs 8 slots ∧ slots.Pairwise Slot.Apart ∧
        ∀ slot ∈ slots, ∀ other ∈ start.handed ops, slot.Apart other
  /-- No later request moves what has been placed. -/
  settled : ∀ early op late, ops = early ++ op :: late → ∀ id ∈ op.binds start.symbols,
    (start.after ops).symbols.offsetOf id = (start.after (early ++ [op])).symbols.offsetOf id

namespace Placing

/-- Requests may be made in two parts. -/
theorem after_append (placing : Placing) (early late : List FrameOp) :
    placing.after (early ++ late) = (placing.after early).after late :=
  List.foldl_append

theorem after_concat (placing : Placing) (early : List FrameOp) (op : FrameOp) :
    placing.after (early ++ [op]) = op.perform (placing.after early) :=
  placing.after_append early [op]

/-- What a request binds stays where it has been put, if nothing is bound twice. -/
theorem symbol_settled {start : Placing} {early late : List FrameOp} {op : FrameOp}
    (once : ((early ++ op :: late).flatMap (·.binds start.symbols)).Nodup) {id : SymbolId}
    (bound : id ∈ op.binds start.symbols) :
    (start.after (early ++ op :: late)).symbols.symbol? id =
      (start.after (early ++ [op])).symbols.symbol? id := by
  rw [List.append_cons, after_append]
  refine symbol_after fun again => ?_
  have alike := start.alike_after (early ++ [op])
  simp only [FrameOp.binds_alike alike] at again
  -- The symbol would be bound both by the request and by a later one.
  rw [List.append_cons, List.flatMap_append] at once
  have here : id ∈ (early ++ [op]).flatMap (·.binds start.symbols) :=
    List.mem_flatMap.mpr ⟨op, by simp, bound⟩
  exact List.disjoint_of_nodup_append once here again

section Places

variable {start : Placing} {early late : List FrameOp} {scope : ScopeId}

/-- Whatever a request binds has the place in the end that it has right behind the request. -/
theorem placed_settled (bytes : Ty → Nat) {op : FrameOp}
    (once : ((early ++ op :: late).flatMap (·.binds start.symbols)).Nodup) :
    (op.binds start.symbols).map ((start.after (early ++ op :: late)).symbols.placed bytes) =
      (op.binds start.symbols).map ((op.perform (start.after early)).symbols.placed bytes) := by
  refine List.map_congr_left fun id bound => ?_
  simp only [SymbolTable.placed, SymbolTable.offsetOf, SymbolTable.typeOf]
  rw [symbol_settled once bound, after_concat]

/-- Variables are in the end where their request has put them. -/
theorem handed_locals {skip : Nat}
    (once : ((early ++ .locals scope skip :: late).flatMap (·.binds start.symbols)).Nodup) :
    FrameOp.handed (start.after early) (.locals scope skip) =
      ((start.symbols.ids scope).drop skip).map
        ((start.after (early ++ .locals scope skip :: late)).symbols.placed storageSize) := by
  have bound := (start.alike_after early).trans
    (FrameOp.alike_perform (.locals scope skip) (start.after early))
  refine Eq.trans ?_ (placed_settled storageSize once).symm
  -- Right behind the request the places are read off the symbols of the scope.
  rw [FrameOp.binds, ← bound.ids, List.map_drop, SymbolTable.map_placed, ← List.map_drop]
  rfl

/-- Parameters are in the end one behind the other above the base. -/
theorem climbs_parameters {count : Nat}
    (once : ((early ++ .parameters scope count :: late).flatMap (·.binds start.symbols)).Nodup) :
    Climbs 8 (((start.symbols.ids scope).take count).map ((start.after
      (early ++ .parameters scope count :: late)).symbols.placed Ty.parameterBytes)) := by
  have bound := (start.alike_after early).trans
    (FrameOp.alike_perform (.parameters scope count) (start.after early))
  have settled := placed_settled Ty.parameterBytes once
  have climbs := Frame.climbs_placeParameters parameterBase
    (((start.after early).symbols.symbolsOf scope).take count)
  -- Right behind the request the first symbols of the scope are those that have been placed.
  rw [← Frame.take_bindParameters, List.map_take, ← SymbolTable.map_placed, ← List.map_take] at climbs
  rw [FrameOp.binds, ← bound.ids] at settled
  rw [← bound.ids, settled]
  exact climbs

end Places

end Placing

/-- However requests to a fresh frame follow one another, if they bind no symbol twice and ask for less
than half of what can be addressed, then every byte below the base down to the offset of the frame is
handed out once, the frame is as small as it can be for all slots and arguments and for its alignment,
parameters rise from their base apart from all else, and nothing that has been placed is ever moved. -/
theorem requests_booked (start : Placing) (ops : List FrameOp) (fresh : start.frame = {})
    (once : (ops.flatMap (·.binds start.symbols)).Nodup)
    (small : slotBytes (start.handed ops) < 2 ^ 63) : start.Booked ops := by
  -- All slots are stacked from the base down, so the offset counts the bytes in them.
  have stacked := start.stacked ops
  have reserved := start.arguments_after ops
  rw [fresh] at stacked reserved
  change Stacked 0 (start.handed ops) (start.after ops).frame.offset at stacked
  change (start.after ops).frame.arguments = max 0 (largestReserve ops) at reserved
  rw [Nat.zero_max] at reserved
  have total := stacked.total
  have taken : (start.after ops).frame.offset.natAbs = slotBytes (start.handed ops) := by omega
  obtain ⟨aligned, room, least⟩ := (start.after ops).frame.size_least
  have padded := (start.after ops).frame.size_lt
  rw [taken, reserved] at room least padded
  have limited : largestReserve ops < 2 ^ 32 := largestReserve_lt ops
  exact {
    apart := stacked.apart
    below := fun slot member => (stacked.bounds slot member).2
    covers := stacked.covers
    aligned
    room
    least
    words := ⟨fun slot member => (stacked.bounds slot member).1, by omega, by omega⟩
    locals := by
      intro early scope skip late asked
      subst asked
      exact Placing.handed_locals once
    parameters := by
      intro early scope count late asked
      subst asked
      have climbs := Placing.climbs_parameters once
      refine ⟨by rw [Placing.after_concat]; rfl, climbs, climbs.apart, ?_⟩
      intro slot member other handed
      -- Slots are handed out below the base only.
      have above := climbs.above slot member
      have below := (stacked.bounds other handed).2
      exact .inr (by omega)
    settled := by
      intro early op late asked id bound
      subst asked
      unfold SymbolTable.offsetOf
      rw [Placing.symbol_settled once bound] }

/-- A function with a character and a real number for parameters, a text of ten characters, and a
block with a number in it. -/
def blockStart : Placing where
  symbols := { scopes := [{ enclosing := none },
    { enclosing := some 0, symbols := [⟨"c", .char, 0⟩, ⟨"x", .double, 0⟩, ⟨"t", .array .char 0 10, 0⟩] },
    { enclosing := some 1, symbols := [⟨"n", .int, 0⟩] }] }

/-- What is asked of the frame while the function is written, with calls around the block. -/
def blockOps : List FrameOp :=
  [.parameters 1 2, .locals 1 2, .bytes 8, .arguments 12, .locals 2 0, .bytes 1, .arguments 4]

/-- The frame takes the twenty-three bytes that are handed out and the twelve that are reserved, and
five more. -/
theorem requests_booked_block : blockStart.frame = {} ∧
    (blockOps.flatMap (·.binds blockStart.symbols)).Nodup ∧
    slotBytes (blockStart.handed blockOps) = 23 ∧
    (blockStart.after blockOps).frame.size = 40 ∧ blockStart.Booked blockOps := by
  have once : (blockOps.flatMap (·.binds blockStart.symbols)).Nodup := by decide
  have bytes : slotBytes (blockStart.handed blockOps) = 23 := by decide
  have small : slotBytes (blockStart.handed blockOps) < 2 ^ 63 := by
    rw [bytes]
    decide
  exact ⟨rfl, once, bytes, by decide, requests_booked blockStart blockOps rfl once small⟩

end SmallC
