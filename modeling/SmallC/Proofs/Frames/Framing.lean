import SmallC.Proofs.Frames.Pointers
import SmallC.Proofs.Frames.Residents

/-! Framing: all that a function reads and writes in its frame is inside the slot that it is
about. -/

namespace SmallC

namespace Frame

/-- The frame has room for all that has been handed out and for the arguments. -/
theorem room_le_size {frame : Frame} (base : frame.offset ≤ 0) :
    (frame.arguments : Int) - frame.size ≤ frame.offset := by
  unfold size
  dsimp only
  omega

end Frame

namespace Function

variable {function : Function} {table : SymbolTable} {nextLabel size : Nat}

variable (function table) in
/-- The types of the parameters. -/
def parameterTypes : List Ty :=
  ((table.symbolsOf function.scope).take function.parameters).map Symbol.type

/-- A parameter has the words behind those of the parameters before it. -/
theorem slot_parameter (settled : function.Settled table) {index : Nat} {type : Ty}
    (here : (function.parameterTypes table)[index]? = some type) :
    function.slot (function.last table nextLabel).symbols size (.symbol ⟨function.scope, index⟩) =
      ⟨8 + (((function.parameterTypes table).take index).map Ty.parameterBytes).sum,
        type.parameterBytes⟩ := by
  have within : index < (function.parameterTypes table).length :=
    (List.getElem?_eq_some_iff.mp here).1
  have early : index < function.parameters := by
    simp only [parameterTypes, List.length_map, List.length_take] at within
    omega
  -- Neither the variables of the body nor those of blocks move the parameters.
  have kept : (function.last table nextLabel).symbols.symbol? ⟨function.scope, index⟩ =
      (Frame.bindParameters function.scope function.parameters table).symbol?
        ⟨function.scope, index⟩ := by
    have counted := counted_parameters settled
    unfold SymbolTable.symbol?
    rw [symbolsOf_last settled.blocks, symbolsOf_entry settled, symbolsOf_bindParameters settled,
      List.getElem?_append_left (counted.symm ▸ early),
      List.getElem?_append_left (counted.symm ▸ early)]
  have offset : (function.last table nextLabel).symbols.offsetOf ⟨function.scope, index⟩ =
      8 + (((function.parameterTypes table).take index).map Ty.parameterBytes).sum := by
    unfold SymbolTable.offsetOf
    rw [kept]
    exact offsetOf_bindParameters rfl within
  have kind : (function.last table nextLabel).symbols.typeOf ⟨function.scope, index⟩ = type := by
    rw [(alike_last function table nextLabel).typeOf]
    rw [parameterTypes, List.getElem?_map, List.getElem?_take_of_lt early] at here
    unfold SymbolTable.typeOf SymbolTable.symbol?
    rw [here]
    rfl
  have parameter : function.IsParameter ⟨function.scope, index⟩ := ⟨rfl, early⟩
  simp only [slot, offset, kind, parameter, if_true]

end Function

namespace Handed

variable (entry : Handed)

/-- The name of a function. -/
def name : String := entry.symbols.nameOf entry.function.symbol

/-- A function when it has been lowered. -/
def last : Progress := entry.function.last entry.symbols entry.generated.nextLabel

/-- The bytes of a function's frame. -/
def frameSize : Nat := entry.last.frame.size

/-- The pieces of the code of a function, in order. -/
def pieces : List Piece := entry.sites.flatMap Site.pieces

/-- What is written behind the body of a function. -/
def closing : List Item :=
  epilogue entry.name entry.exit entry.last.frame ++ literalItems entry.last.literals

/-- The place of an object in the frame of a function. -/
def slot : Object → Slot := entry.function.slot entry.placed entry.frameSize

/-- The room for arguments, at the end of the frame. -/
def outgoing : Object := .argument 0 entry.last.frame.arguments

/-- The types of the parameters. -/
def parameterTypes : List Ty := entry.function.parameterTypes entry.symbols

/-- Everything that has a place of its own below the base of the frame. -/
def residents : List Object :=
  entry.function.residents entry.symbols entry.generated.nextLabel

/-- The code of a function keeps to its frame. -/
structure Framed : Prop where
  /-- A function is written as a prologue, its pieces in order, and what is behind them. -/
  written : (generateFunction entry.function entry.symbols entry.generated).2.items =
    entry.generated.items ++
      (prologue entry.name ++ entry.pieces.flatMap Piece.code ++ entry.closing)
  /-- The size of the frame is written behind the body. -/
  sized : ∀ bytes, .frameSize entry.name bytes ∈ entry.closing ↔ bytes = entry.frameSize
  /-- Outside the body nothing in the frame is read or written by operands. -/
  outside : ∀ item ∈ prologue entry.name ++ entry.closing, item.accesses entry.frameSize = []
  /-- Every piece reads and writes only inside the slots of what it is about. -/
  stays : ∀ piece ∈ entry.pieces,
    Stays entry.frameSize (piece.objects.map entry.slot) piece.code
  /-- That is a parameter, an argument in the room for arguments, or has a place of its own. -/
  objects : ∀ piece ∈ entry.pieces, ∀ object ∈ piece.objects,
    entry.function.Houses entry.symbols entry.generated.nextLabel object
  /-- A parameter has the words in which it is passed, behind those of the parameters before. -/
  parameters : ∀ index type, entry.parameterTypes[index]? = some type →
    entry.slot (.symbol ⟨entry.function.scope, index⟩) =
      ⟨8 + ((entry.parameterTypes.take index).map Ty.parameterBytes).sum, type.parameterBytes⟩
  /-- All variables, of the body and of every block, have places of their own. -/
  locals : ∀ symbol, symbol.scope ∈ entry.function.scopes →
    (entry.symbols.symbol? symbol).isSome → ¬ entry.function.IsParameter symbol →
      .symbol symbol ∈ entry.residents ∧
        (entry.slot (.symbol symbol)).bytes = storageSize (entry.symbols.typeOf symbol)
  /-- So have the temporaries of all nodes, wherever they are lowered. -/
  temporaries : ∀ node progress, Expression.sites node progress <:+: entry.sites →
    ∀ object ∈ node.keeps progress, object ∈ entry.residents
  /-- No two of the places overlap, and none overlaps the room for arguments. -/
  apart : ((entry.outgoing :: entry.residents).map entry.slot).Pairwise Slot.Apart
  /-- All of them are in the frame. -/
  inside : ∀ object ∈ entry.outgoing :: entry.residents,
    -(entry.frameSize : Int) ≤ (entry.slot object).offset ∧ (entry.slot object).stop ≤ 0
  /-- Throughout the body the end of the stack is below the base by the size of the frame. -/
  pointers : ∀ later {sizes : String → Nat} {start state : Pointers} {place : Nat},
    sizes entry.name = entry.frameSize →
    (pointing sizes).Steps (entry.unit later) (entry.generated.items.length + 1, start)
      (place, state) →
    entry.behind [] ≤ place → place ≤ entry.behind entry.sites →
      state.stop = state.base - entry.frameSize

variable {entry}

/-- The pieces of a function make up the code of its body. -/
theorem code_pieces : entry.pieces.flatMap Piece.code =
    entry.function.bodyCode entry.symbols entry.generated.nextLabel := by
  rw [← Function.codeAt_sites, pieces, List.flatMap_assoc]
  exact List.flatMap_congr fun site _ => site.code_pieces

/-- Behind a function there are only its constants. -/
theorem mem_literalItems {literals : List (Label × Literal)} {item : Item}
    (member : item ∈ literalItems literals) :
    item = .dataSection ∨ item = .blank ∨ ∃ label value, item = .literal label value := by
  unfold literalItems at member
  -- Without constants nothing is written, and otherwise they stand between a heading and an empty
  -- line.
  split at member
  · cases member
  · simp only [List.cons_append, List.mem_cons, List.mem_append, List.mem_map, List.not_mem_nil,
      or_false] at member
    rcases member with rfl | ⟨literal, -, rfl⟩ | rfl
    · exact .inl rfl
    · exact .inr (.inr ⟨_, _, rfl⟩)
    · exact .inr (.inl rfl)

theorem sized_closing (bytes : Nat) :
    .frameSize entry.name bytes ∈ entry.closing ↔ bytes = entry.frameSize := by
  have others : .frameSize entry.name bytes ∉ literalItems entry.last.literals := by
    intro member
    rcases mem_literalItems member with same | same | ⟨label, value, same⟩ <;> cases same
  rw [closing, List.mem_append, or_iff_left others]
  simp [epilogue, operate, frameSize]

/-- What is around the body names nothing in the frame but its registers. -/
theorem accesses_around : ∀ item ∈ prologue entry.name ++ entry.closing,
    item.accesses entry.frameSize = [] := by
  intro item member
  rw [closing, List.mem_append, List.mem_append] at member
  -- Prologue, epilogue and constants are short lists that name no offset.
  rcases member with before | behind | constant
  · simp only [prologue, List.mem_cons, List.not_mem_nil, or_false] at before
    rcases before with rfl | rfl | rfl | rfl | rfl <;> rfl
  · simp only [epilogue, List.mem_cons, List.not_mem_nil, or_false] at behind
    rcases behind with rfl | rfl | rfl | rfl | rfl | rfl | rfl | rfl | rfl <;> rfl
  · rcases mem_literalItems constant with rfl | rfl | ⟨label, value, rfl⟩ <;> rfl

/-- Everything in the frame has its own bytes there. -/
theorem places_apart (settled : entry.function.Settled entry.symbols) :
    ((entry.outgoing :: entry.residents).map entry.slot).Pairwise Slot.Apart ∧
      ∀ object ∈ entry.outgoing :: entry.residents,
        -(entry.frameSize : Int) ≤ (entry.slot object).offset ∧ (entry.slot object).stop ≤ 0 := by
  obtain ⟨stacked, -⟩ := @Function.stacked_residents entry.function entry.symbols entry.frameSize
    settled entry.generated.nextLabel
  have room : (entry.last.frame.arguments : Int) - entry.frameSize ≤ entry.last.frame.offset :=
    Frame.room_le_size stacked.bottom_le
  have bottom : entry.last.frame.offset ≤ 0 := stacked.bottom_le
  -- The arguments end at or below the last slot that has been handed out.
  have ends : (entry.slot entry.outgoing).stop ≤ entry.last.frame.offset := by
    show (0 - entry.frameSize : Int) + entry.last.frame.arguments ≤ _
    omega
  refine ⟨List.pairwise_cons.mpr ⟨fun slot member => ?_, stacked.apart⟩,
    List.forall_mem_cons.mpr ⟨⟨?_, Int.le_trans ends bottom⟩, fun object member => ?_⟩⟩
  · exact .inl (Int.le_trans ends (stacked.bounds slot member).1)
  · show -(entry.frameSize : Int) ≤ 0 - entry.frameSize
    omega
  · obtain ⟨low, high⟩ := stacked.bounds _ (List.mem_map_of_mem member)
    refine ⟨Int.le_trans ?_ low, high⟩
    show -(entry.frameSize : Int) ≤ entry.last.frame.offset
    omega

/-- Throughout the body the frame has its size. -/
theorem pointers_body (labelled : entry.generated.Labelled)
    (stays : ∀ piece ∈ entry.pieces,
      Stays entry.frameSize (piece.objects.map entry.slot) piece.code)
    (later : List Item) {sizes : String → Nat} {start state : Pointers} {place : Nat}
    (named : sizes entry.name = entry.frameSize)
    (run : (pointing sizes).Steps (entry.unit later) (entry.generated.items.length + 1, start)
      (place, state)) (after : entry.behind [] ≤ place)
    (before : place ≤ entry.behind entry.sites) : state.stop = state.base - entry.frameSize := by
  have plain : ∀ item ∈ entry.function.bodyCode entry.symbols entry.generated.nextLabel,
      item.holdsFrame = false := by
    intro item member
    rw [← code_pieces] at member
    obtain ⟨piece, listed, here⟩ := List.mem_flatMap.mp member
    exact (stays piece listed item here).frame
  have entered : entry.function.Points entry.symbols entry.generated entry.frameSize
      (entry.generated.items.length + 1) start := by
    refine .entering (Nat.lt_succ_self _) ?_
    simp [Function.start, Function.preceding, prologue]
  have first : entry.behind [] = entry.function.start entry.symbols entry.generated := rfl
  have last : entry.behind entry.sites = entry.function.stop entry.symbols entry.generated :=
    entry.behind_sites
  rw [first] at after
  rw [last] at before
  -- Of the four stages of a run only one lies between these places.
  cases Function.points_run labelled plain named entered run with
  | entering | based | leaving => omega
  | inside _ _ sized => exact sized

end Handed

/-- Without a diagnostic, every function reads and writes in its frame only inside the slots of what
its code is about, and all that is kept there has its own bytes. -/
theorem compile_frames {options : Options} {file source : String} {compilation : Compilation}
    (compiled : compile options file source = .ok compilation)
    (silent : compilation.diagnostics = []) :
    ∀ entry ∈ handedOver options source, entry.Framed := by
  obtain ⟨checker, vouches, quiet⟩ := vouches_compile compiled silent
  intro entry member
  obtain ⟨specifier, indirection, parameters, variadic, typed⟩ := vouches.typed quiet entry member
  have settled := settled_handedOver compiled entry member
  have labelled := (handedOver_written compiled entry member).labelled
  have stays : ∀ piece ∈ entry.pieces,
      Stays entry.frameSize (piece.objects.map entry.slot) piece.code := by
    intro piece listed
    obtain ⟨site, here, listed⟩ := List.mem_flatMap.mp listed
    exact typed.stays settled site here piece listed
  obtain ⟨apart, inside⟩ := Handed.places_apart settled
  -- Typing decides what is read and written in which width, and scoping where each name is.
  exact {
    written := by
      rw [generateFunction_eq, Handed.code_pieces]
      simp only [Handed.closing, List.append_assoc]
      rfl
    sized := Handed.sized_closing
    outside := Handed.accesses_around
    stays
    objects := by
      intro piece listed
      obtain ⟨site, here, listed⟩ := List.mem_flatMap.mp listed
      have reserved := (@Function.stacked_residents _ _ entry.frameSize settled
        entry.generated.nextLabel).2 site here
      exact Function.houses_pieces settled here reserved piece listed
    parameters := fun index type here => Function.slot_parameter settled here
    locals := by
      intro symbol listed known other
      refine ⟨Function.symbol_residents listed known other, ?_⟩
      have same := (Function.alike_last entry.function entry.symbols
        entry.generated.nextLabel).typeOf symbol
      simp [Handed.slot, Function.slot, Handed.placed, other, same]
    temporaries := fun node progress stretch => Function.keeps_residents stretch
    apart
    inside
    pointers := fun later _ _ _ _ named run => Handed.pointers_body labelled stays later named run }

/-- A function with variables in two blocks, a conversion by way of a scratch word, and a call. -/
def shareSource : String :=
  "double f(double x, char c) { char d; d = x; { int i; i = d; x = f(x, c) / i; } return x; }"

set_option maxRecDepth 2000 in
/-- It compiles in silence, and keeps to its frame. -/
theorem compile_frames_share :
    compile { checkOnly := true } "share.c" shareSource = .ok ⟨"", []⟩ ∧
      (handedOver { checkOnly := true } shareSource).length = 1 ∧
      ∀ entry ∈ handedOver { checkOnly := true } shareSource, entry.Framed := by
  have compiled : compile { checkOnly := true } "share.c" shareSource = .ok ⟨"", []⟩ := by cbv
  have handed : (handedOver { checkOnly := true } shareSource).length = 1 := by cbv
  exact ⟨compiled, handed, compile_frames compiled rfl⟩

end SmallC
