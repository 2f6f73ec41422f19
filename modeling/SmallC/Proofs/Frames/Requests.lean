import SmallC.Proofs.Calls.Agreement
import SmallC.Proofs.Frames.Layout

/-! Requests to a frame: what each of them hands out, which symbols it places, and what it leaves as it
is. -/

namespace SmallC

/-- What may be asked of a frame. -/
inductive FrameOp where
  /-- Place the first symbols of a scope as parameters. -/
  | parameters (scope : ScopeId) (count : Nat)
  /-- Place the symbols of a scope behind the first ones as variables. -/
  | locals (scope : ScopeId) (skip : Nat)
  /-- Hand out bytes for something that has no name. -/
  | bytes (count : UInt32)
  /-- Leave room for the arguments of a call. -/
  | arguments (count : UInt32)

/-- A frame and the symbols that are placed in it. -/
structure Placing where
  /-- The frame, from which nothing has been handed out at first. -/
  frame : Frame := {}
  /-- The symbols. -/
  symbols : SymbolTable

namespace FrameOp

/-- What becomes of a frame and of the symbols. -/
def perform : FrameOp → Placing → Placing
  | .parameters scope count, placing =>
    { placing with symbols := Frame.bindParameters scope count placing.symbols }
  | .locals scope skip, placing =>
    let bound := placing.frame.bindLocals scope skip placing.symbols
    ⟨bound.1, bound.2⟩
  | .bytes count, placing => { placing with frame := (placing.frame.allocate count.toNat).2 }
  | .arguments count, placing =>
    { placing with frame := placing.frame.reserveArguments count.toNat }

/-- The slots that are handed out below the base, those of variables being read off their symbols. -/
def handed (placing : Placing) : FrameOp → List Slot
  | .parameters .. | .arguments _ => []
  | .locals scope skip =>
    let bound := placing.frame.bindLocals scope skip placing.symbols
    ((bound.2.symbolsOf scope).drop skip).map Symbol.slot
  | .bytes count => [⟨(placing.frame.allocate count.toNat).1, count.toNat⟩]

/-- The symbols that are given a place. -/
def binds (table : SymbolTable) : FrameOp → List SymbolId
  | .parameters scope count => (table.ids scope).take count
  | .locals scope skip => (table.ids scope).drop skip
  | .bytes _ | .arguments _ => []

/-- How many bytes are reserved for arguments. -/
def reserves : FrameOp → Nat
  | .arguments count => count.toNat
  | .parameters .. | .locals .. | .bytes _ => 0

end FrameOp

namespace Placing

/-- A frame and its symbols after requests. -/
def after (placing : Placing) (ops : List FrameOp) : Placing :=
  ops.foldl (fun reached op => op.perform reached) placing

/-- The slots that are handed out along requests, in order. -/
def handed : Placing → List FrameOp → List Slot
  | _, [] => []
  | placing, op :: rest => op.handed placing ++ handed (op.perform placing) rest

end Placing

/-- The largest of the reservations. -/
def largestReserve (ops : List FrameOp) : Nat :=
  (ops.map FrameOp.reserves).foldr max 0

/-- How many bytes slots have in all. -/
def slotBytes (slots : List Slot) : Nat :=
  (slots.map Slot.bytes).sum

/-- The place of a symbol of which so many bytes are kept for its type. -/
def Symbol.placed (bytes : Ty → Nat) (symbol : Symbol) : Slot := ⟨symbol.offset, bytes symbol.type⟩

/-- The place that a table has for a symbol. -/
def SymbolTable.placed (bytes : Ty → Nat) (table : SymbolTable) (id : SymbolId) : Slot :=
  ⟨table.offsetOf id, bytes (table.typeOf id)⟩

/-- Slots that rise from an offset on, each of at least a word. -/
structure Climbs (start : Int) (slots : List Slot) : Prop where
  /-- The first slot is at the start. -/
  starts : ∀ first ∈ slots.head?, first.offset = start
  /-- Each slot has at least a word. -/
  words : ∀ slot ∈ slots, 4 ≤ slot.bytes
  /-- No slot is below the start. -/
  above : ∀ slot ∈ slots, start ≤ slot.offset
  /-- Each slot ends before all later ones. -/
  rises : slots.Pairwise fun early late => early.stop ≤ late.offset

/-! Slots that are handed out downwards. -/

namespace Stacked

variable {top bottom : Int} {slots : List Slot}

/-- They have as many bytes as lie between the top and the bottom. -/
theorem total (stacked : Stacked top slots bottom) : top = bottom + slotBytes slots := by
  induction stacked with
  | nil => simp [slotBytes]
  | @cons slot rest bottom below ih =>
    simp only [slotBytes, List.map_cons, List.sum_cons, Slot.stop] at ih ⊢
    omega

/-- Every byte between the bottom and the top is in exactly one of them, and no other byte is. -/
theorem covers (stacked : Stacked top slots bottom) (byte : Int) :
    slots.countP (fun slot => slot.offset ≤ byte ∧ byte < slot.stop) =
      if bottom ≤ byte ∧ byte < top then 1 else 0 := by
  -- The first slot has the bytes next to the top, and the others have those below it.
  induction stacked with
  | nil offset =>
    have outside : ¬ (offset ≤ byte ∧ byte < offset) := by omega
    rw [if_neg outside]
    rfl
  | @cons slot rest bottom below ih =>
    have lower := below.bottom_le
    have length : slot.offset ≤ slot.stop := by
      simp only [Slot.stop]
      omega
    rw [List.countP_cons, ih]
    simp only [decide_eq_true_eq]
    split_ifs <;> omega

end Stacked

/-! The size of a frame. -/

/-- A frame is padded to the least size that fits and keeps the stack aligned. -/
theorem Frame.size_least (frame : Frame) :
    frame.size % 16 = 8 ∧ frame.offset.natAbs + frame.arguments ≤ frame.size ∧
      ∀ size : Nat, size % 16 = 8 → frame.offset.natAbs + frame.arguments ≤ size →
        frame.size ≤ size := by
  unfold Frame.size
  dsimp only
  refine ⟨by omega, by omega, fun size aligned fits => ?_⟩
  omega

/-- Padding is less than the alignment. -/
theorem Frame.size_lt (frame : Frame) :
    frame.size < frame.offset.natAbs + frame.arguments + 16 := by
  unfold Frame.size
  dsimp only
  omega

/-! Parameters climb from the base. -/

namespace Climbs

variable {start : Int} {slots : List Slot}

/-- No slot rises from anywhere. -/
theorem nil (start : Int) : Climbs start [] :=
  ⟨nofun, nofun, nofun, .nil⟩

/-- A slot of at least a word comes before slots that rise from its end. -/
theorem cons {slot : Slot} (word : 4 ≤ slot.bytes) (climbs : Climbs slot.stop slots) :
    Climbs slot.offset (slot :: slots) where
  starts first member := by
    cases member
    rfl
  words := List.forall_mem_cons.mpr ⟨word, climbs.words⟩
  -- The slots behind start where this one stops, which is above where it starts.
  above := by
    refine List.forall_mem_cons.mpr ⟨Int.le_refl _, fun later member => ?_⟩
    have beyond := climbs.above later member
    simp only [Slot.stop] at beyond
    omega
  rises := .cons climbs.above climbs.rises

/-- Slots that rise from an offset on do not overlap. -/
theorem apart (climbs : Climbs start slots) : slots.Pairwise Slot.Apart :=
  climbs.rises.imp fun before => .inl before

end Climbs

/-- Parameters are placed one behind the other from the offset on. -/
theorem Frame.climbs_placeParameters (offset : Int) (symbols : List Symbol) :
    Climbs offset ((placeParameters offset symbols).map (Symbol.placed Ty.parameterBytes)) := by
  induction symbols generalizing offset with
  | nil => exact .nil offset
  | cons symbol rest ih =>
    -- The next parameter is placed where this one ends.
    let slot : Slot := ⟨offset, symbol.type.parameterBytes⟩
    have climbs : Climbs slot.stop _ := ih slot.stop
    have further : slot.stop = offset + max symbol.type.size 4 := by
      simp [slot, Slot.stop, Ty.parameterBytes]
    rw [further] at climbs
    exact @Climbs.cons _ slot (Nat.le_max_right _ _) (further.symm ▸ climbs)

/-! Which symbols are given a place, and what becomes of the others. -/

namespace SymbolTable

variable {table other : SymbolTable} {scope : ScopeId} {id : SymbolId}

/-- The first ids of a scope are those with low slots. -/
theorem mem_take_ids {count : Nat} : id ∈ (table.ids scope).take count ↔
    id.scope = scope ∧ id.slot < count ∧ id.slot < (table.symbolsOf scope).length := by
  obtain ⟨holder, slot⟩ := id
  simp only [ids, ← List.map_take, List.take_range, List.mem_map, List.mem_range, SymbolId.mk.injEq]
  constructor
  · rintro ⟨_, below, rfl, rfl⟩
    exact ⟨rfl, by omega, by omega⟩
  · rintro ⟨rfl, low, known⟩
    exact ⟨slot, by omega, rfl, rfl⟩

/-- The ids of a scope behind the first ones are those with high slots. -/
theorem mem_drop_ids {skip : Nat} : id ∈ (table.ids scope).drop skip ↔
    id.scope = scope ∧ skip ≤ id.slot ∧ id.slot < (table.symbolsOf scope).length := by
  obtain ⟨holder, slot⟩ := id
  simp only [ids, ← List.map_drop, List.range_eq_range', List.drop_range', List.mem_map,
    List.mem_range'_1, SymbolId.mk.injEq]
  -- The slots of a scope count up from zero, so leaving out the first ones leaves a range.
  constructor
  · rintro ⟨_, between, rfl, rfl⟩
    exact ⟨rfl, by omega, by omega⟩
  · rintro ⟨rfl, high, known⟩
    exact ⟨slot, by omega, rfl, rfl⟩

/-- The places of the ids of a scope are those of its symbols. -/
theorem map_placed (bytes : Ty → Nat) (table : SymbolTable) (scope : ScopeId) :
    (table.ids scope).map (table.placed bytes) =
      (table.symbolsOf scope).map (Symbol.placed bytes) := by
  refine table.map_ids scope 0 fun index symbol _ found => ?_
  simp [placed, Symbol.placed, offsetOf, typeOf, symbol?, found]

end SymbolTable

/-- What stands outside of the first items is the same when these are changed. -/
theorem getElem?_changed_left {α : Type} {changed items : List α} {count index : Nat}
    (same : changed.length = (items.take count).length)
    (outside : items.length ≤ index ∨ count ≤ index) :
    (changed ++ items.drop count)[index]? = items[index]? := by
  have beyond : (items.take count).length ≤ index := by
    rw [List.length_take]
    omega
  conv_rhs => rw [← List.take_append_drop count items]
  rw [List.getElem?_append_right (same ▸ beyond), List.getElem?_append_right beyond, same]

/-- What stands among the first items is the same when the others are changed. -/
theorem getElem?_changed_right {α : Type} {changed items : List α} {skip index : Nat}
    (same : changed.length = (items.drop skip).length)
    (outside : items.length ≤ index ∨ index < skip) :
    (items.take skip ++ changed)[index]? = items[index]? := by
  conv_rhs => rw [← List.take_append_drop skip items]
  by_cases first : index < (items.take skip).length
  · rw [List.getElem?_append_left first, List.getElem?_append_left first]
  · -- Behind the first items nothing is left but what stands behind all of them.
    rw [List.length_take] at first
    rw [List.length_drop] at same
    rw [List.getElem?_append_right (by rw [List.length_take]; omega),
      List.getElem?_append_right (by rw [List.length_take]; omega)]
    rw [List.getElem?_eq_none (by rw [List.length_take]; omega),
      List.getElem?_eq_none (by rw [List.length_take, List.length_drop]; omega)]

namespace Frame

/-- The symbols of a scope that are placed as parameters. -/
theorem take_bindParameters (scope : ScopeId) (count : Nat) (table : SymbolTable) :
    ((bindParameters scope count table).symbolsOf scope).take count =
      placeParameters parameterBase ((table.symbolsOf scope).take count) := by
  have same := length_placeParameters parameterBase ((table.symbolsOf scope).take count)
  rw [List.length_take] at same
  unfold bindParameters
  rw [SymbolTable.symbolsOf_modifySymbols]
  by_cases present : scope < table.scopes.length
  · rw [if_pos ⟨rfl, present⟩]
    by_cases enough : count ≤ (table.symbolsOf scope).length
    · exact List.take_left' (same.trans (Nat.min_eq_left enough))
    · -- There are fewer symbols than are asked for, and all of them are parameters.
      rw [List.drop_of_length_le (by omega), List.append_nil, List.take_of_length_le (by omega)]
  · rw [if_neg (by simp [present]), SymbolTable.symbolsOf_absent (Nat.le_of_not_lt present)]
    simp [placeParameters]

theorem length_placeLocals (frame : Frame) (symbols : List Symbol) :
    (frame.placeLocals symbols).1.length = symbols.length := by
  have same := congrArg List.length (frame.declarations_placeLocals symbols)
  rwa [List.length_map, List.length_map] at same

/-- The symbols of a scope that are placed as variables. -/
theorem drop_bindLocals (frame : Frame) (scope : ScopeId) (skip : Nat) (table : SymbolTable) :
    ((frame.bindLocals scope skip table).2.symbolsOf scope).drop skip =
      (frame.placeLocals ((table.symbolsOf scope).drop skip)).1 := by
  unfold bindLocals
  dsimp only
  rw [SymbolTable.symbolsOf_modifySymbols]
  by_cases present : scope < table.scopes.length
  · rw [if_pos ⟨rfl, present⟩]
    by_cases enough : skip ≤ (table.symbolsOf scope).length
    · exact List.drop_left' (by rw [List.length_take]; omega)
    · -- There are no more symbols than are left out.
      rw [List.drop_of_length_le (Nat.le_of_not_le enough)]
      simp only [placeLocals, List.append_nil]
      exact List.drop_of_length_le (by rw [List.length_take]; omega)
  · rw [if_neg (by simp [present]), SymbolTable.symbolsOf_absent (Nat.le_of_not_lt present)]
    simp [placeLocals]

end Frame

namespace FrameOp

variable {op : FrameOp} {placing : Placing}

/-- A request hands out slots right below the ones before. -/
theorem stacked (op : FrameOp) (placing : Placing) :
    Stacked placing.frame.offset (op.handed placing) (op.perform placing).frame.offset := by
  -- Parameters and arguments take nothing below what there is.
  cases op with
  | parameters | arguments => exact .nil _
  | locals scope skip =>
    rw [handed, Frame.drop_bindLocals]
    exact Frame.stacked_placeLocals _ _
  | bytes count =>
    let slot : Slot := ⟨(placing.frame.allocate count.toNat).1, count.toNat⟩
    have ends : slot.stop = placing.frame.offset := Int.sub_add_cancel _ _
    exact ends ▸ Stacked.single slot

/-- A request makes room for the arguments that it reserves. -/
theorem arguments_perform (op : FrameOp) (placing : Placing) :
    (op.perform placing).frame.arguments = max placing.frame.arguments op.reserves := by
  cases op with
  | parameters | bytes => exact (Nat.max_zero _).symm
  | locals => exact (Frame.arguments_placeLocals _ _).trans (Nat.max_zero _).symm
  | arguments => rfl

/-- A request changes at most the places of symbols. -/
theorem alike_perform (op : FrameOp) (placing : Placing) :
    placing.symbols.Alike (op.perform placing).symbols := by
  cases op with
  | parameters scope count => exact Frame.alike_bindParameters scope count placing.symbols
  | locals scope skip => exact Frame.alike_bindLocals placing.frame scope skip placing.symbols
  | bytes | arguments => exact .refl _

/-- Tables that differ in places only have the same symbols bound. -/
theorem binds_alike {table other : SymbolTable} (alike : table.Alike other) (op : FrameOp) :
    op.binds other = op.binds table := by
  cases op with
  | parameters | locals =>
    rw [binds, binds, alike.ids]
  | bytes | arguments => rfl

/-- A symbol that a request does not bind stays as it is. -/
theorem symbol_perform {id : SymbolId} (free : id ∉ op.binds placing.symbols) :
    (op.perform placing).symbols.symbol? id = placing.symbols.symbol? id := by
  cases op with
  | bytes | arguments => rfl
  | parameters scope count =>
    rw [binds, SymbolTable.mem_take_ids] at free
    unfold SymbolTable.symbol? perform Frame.bindParameters
    dsimp only
    rw [SymbolTable.symbolsOf_modifySymbols]
    split
    · next here =>
      -- The symbol is of the scope, so its slot is behind those of the parameters or behind them all.
      refine getElem?_changed_left (Frame.length_placeParameters _ _) ?_
      by_contra inside
      exact free ⟨here.1.symm, by omega, here.1 ▸ by omega⟩
    · rfl
  | locals scope skip =>
    rw [binds, SymbolTable.mem_drop_ids] at free
    unfold SymbolTable.symbol? perform Frame.bindLocals
    dsimp only
    rw [SymbolTable.symbolsOf_modifySymbols]
    split
    · next here =>
      rw [here.1]
      refine getElem?_changed_right (Frame.length_placeLocals _ _) ?_
      by_contra inside
      exact free ⟨here.1.symm, by omega, here.1 ▸ by omega⟩
    · rfl

end FrameOp

end SmallC
