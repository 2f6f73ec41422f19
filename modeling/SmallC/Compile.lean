import SmallC.Grammar.Units
import SmallC.Lowering.Units
import SmallC.Report.Diagnostic
import SmallC.Source.Tokens

/-! Compiling a source text to assembly, with every problem found on the way. -/

namespace SmallC

/-- The nesting of statements and expressions that is read by default. -/
def defaultLimit : Nat := 200

/-- The file name of a source text that has none. -/
def unnamedFile : String := "<input>"

/-- What a compilation depends on besides its source. -/
structure Options where
  /-- What is put before every global name of the assembly. -/
  globalPrefix : String := ""
  /-- How deep statements and expressions may nest. -/
  limit : Nat := defaultLimit
  /-- Whether a problem makes the compilation fail. -/
  denyProblems : Bool := false
  /-- Whether no assembly is wanted. -/
  checkOnly : Bool := false

/-- What a compilation produces; problems do not stop it. -/
structure Compilation where
  /-- The assembly, empty if none was wanted. -/
  assembly : String
  /-- The problems in the order in which they were found. -/
  diagnostics : List Diagnostic

/-- Whether a compilation counts as successful. -/
def Compilation.succeeded (compilation : Compilation) (options : Options) : Bool :=
  -- Problems count only where they are denied.
  !options.denyProblems || compilation.diagnostics.isEmpty

/-- Write each function as it is handed on, unless only checking. -/
def generating (checkOnly : Bool) : Consumer Generated := fun function symbols generated =>
  if checkOnly then (symbols, generated) else generateFunction function symbols generated

/-- The tokens of a source, or the failure of its characters. -/
def tokensOf (source : String) : Except Failure (List Token) :=
  (tokens source).mapError fun fault => .lexical fault.1 fault.2

/-- Compile a source text of the given file. -/
def compile (options : Options) (file source : String) : Except Failure Compilation := do
  -- Functions are written while the unit is read, and global storage comes last.
  let tokens ← tokensOf source
  let outcome := readUnit (generating options.checkOnly) tokens options.limit {}
  match outcome.failure? with
  | some failure => throw failure
  | none =>
    let checker := outcome.reader.checker
    let generated :=
      if options.checkOnly then outcome.output
      else generateGlobals unitScope checker.symbols outcome.output
    return {
      assembly := assemblyText options.globalPrefix generated.items
      diagnostics := checker.reports.map (·.diagnostic file) }

/-- The text of a file's bytes. -/
def decodeText (bytes : ByteArray) : Except Failure String :=
  match String.fromUTF8? bytes with
  | some text => .ok text
  | none => .error (.file .notText)

end SmallC
