import SmallC.Lowering.Statements

/-! Functions and global storage become the assembly of a unit. -/

namespace SmallC

/-- The assembly of a unit as far as it goes. -/
structure Generated where
  /-- The items in the order in which they are written. -/
  items : List Item := []
  /-- The next local label of the unit. -/
  nextLabel : Nat := 0
  deriving Inhabited

/-- The constants of a function, in a section of their own when there are any. -/
def literalItems (literals : List (Label × Literal)) : List Item :=
  if literals.isEmpty then []
  else .dataSection :: literals.map (fun entry => .literal entry.1 entry.2) ++ [.blank]

/-- What stands before the body of a function. -/
def prologue (name : String) : Code :=
  [.textSection, .entry name, operate .pushl [Register.ebp],
    operate .movl [Register.esp, Register.ebp], operate .subl [.frameSize name, Register.esp]]

/-- What stands after the body of a function. -/
def epilogue (name : String) (exit : Label) (frame : Frame) : Code :=
  [.blank, .mark exit, operate .movl [Register.ebp, Register.esp], operate .popl [Register.ebp],
    operate .ret [], .blank, .frameSize name frame.size, .visible name, .blank]

/-- Write a function, whose symbols are placed in its frame on the way. -/
def generateFunction (function : Function) (symbols : SymbolTable) (generated : Generated) :
    SymbolTable × Generated :=
  -- The scope of the body holds the parameters first and then the body's own variables.
  let name := symbols.nameOf function.symbol
  let symbols := Frame.bindParameters function.scope function.parameters symbols
  let bound := Frame.bindLocals {} function.scope function.parameters symbols
  let exit : Label := ⟨generated.nextLabel⟩
  let lowered := (lowerStatements { function := exit } function.body).run
    { symbols := bound.2, nextLabel := generated.nextLabel + 1, frame := bound.1 }
  let progress := lowered.2
  (progress.symbols,
    { items := generated.items ++ (prologue name ++ lowered.1
        ++ epilogue name exit progress.frame ++ literalItems progress.literals)
      nextLabel := progress.nextLabel })

/-- The storage of a global symbol; functions and reported names have none. -/
def globalItem? (symbol : Symbol) : Option Item :=
  if symbol.type.isFunction || symbol.type.isError then none
  else some (.common symbol.name symbol.type.size)

/-- Write the storage of the symbols of a scope. -/
def generateGlobals (scope : ScopeId) (symbols : SymbolTable) (generated : Generated) :
    Generated :=
  { generated with
    items := generated.items ++ (symbols.symbolsOf scope).filterMap globalItem? }

end SmallC
