import SmallC.Program.Symbols

/-! Frames: where a function keeps its parameters, variables, temporaries and arguments. -/

namespace SmallC

/-- The part of a frame handed out so far. -/
structure Frame where
  /-- The lowest offset handed out below the base. -/
  offset : Int := 0
  /-- Bytes of the largest argument list of a call. -/
  arguments : Nat := 0
  deriving DecidableEq, Repr, Inhabited

/-- The offset of the first parameter, above the return address and the saved base. -/
def parameterBase : Int := 8

/-- Bytes kept for a variable; an undeclared name gets a word. -/
def storageSize : Ty → Nat
  -- Even an undeclared name needs a place, for a zero offset marks a global name.
  | .error => 4
  | type => type.size

namespace Frame

/-- Hand out bytes below all others. -/
def allocate (frame : Frame) (bytes : Nat) : Int × Frame :=
  let offset := frame.offset - bytes
  (offset, { frame with offset })

/-- Leave room for the arguments of a call. -/
def reserveArguments (frame : Frame) (bytes : Nat) : Frame :=
  { frame with arguments := max frame.arguments bytes }

/-- Bytes of the frame, padded so that the stack is aligned once the base has been pushed. -/
def size (frame : Frame) : Nat :=
  -- The padding is what is missing to eight more than a multiple of sixteen.
  let used := frame.offset.natAbs + frame.arguments
  used + (24 - used % 16) % 16

/-- Give parameters increasing offsets, each taking at least a word. -/
def placeParameters : (offset : Int) → List Symbol → List Symbol
  -- The caller stores every argument in whole words.
  | _, [] => []
  | offset, symbol :: rest =>
    { symbol with offset } :: placeParameters (offset + max symbol.type.size 4) rest

/-- Give variables decreasing offsets. -/
def placeLocals : Frame → List Symbol → List Symbol × Frame
  | frame, [] => ([], frame)
  | frame, symbol :: rest =>
    let allocated := frame.allocate (storageSize symbol.type)
    let placed := placeLocals allocated.2 rest
    ({ symbol with offset := allocated.1 } :: placed.1, placed.2)

/-- Place the first symbols of a scope as parameters. -/
def bindParameters (scope : ScopeId) (count : Nat) (table : SymbolTable) : SymbolTable :=
  table.modifySymbols scope fun symbols =>
    placeParameters parameterBase (symbols.take count) ++ symbols.drop count

/-- Place the symbols of a scope after the first ones as variables. -/
def bindLocals (frame : Frame) (scope : ScopeId) (skip : Nat) (table : SymbolTable) :
    Frame × SymbolTable :=
  -- The skipped symbols are the parameters, which have their places already.
  let symbols := table.symbolsOf scope
  let placed := frame.placeLocals (symbols.drop skip)
  (placed.2, table.modifySymbols scope fun _ => symbols.take skip ++ placed.1)

end Frame

end SmallC
