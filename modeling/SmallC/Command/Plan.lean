import SmallC.Command.Invocation

/-! Plans: what a run says, delivers and answers, given what its input file holds. -/

namespace SmallC

/-- What becomes of the assembly. -/
inductive Delivery where
  /-- It was not wanted. -/
  | nothing
  /-- It is printed. -/
  | print (text : String)
  /-- It is written to a file. -/
  | write (path text : String)

/-- What a run does once its input has been read. -/
structure Plan where
  /-- What is said about problems. -/
  messages : String
  /-- What becomes of the assembly. -/
  delivery : Delivery
  /-- Whether the run succeeds. -/
  succeeded : Bool

namespace Invocation

/-- What is said about one diagnostic of a source. -/
def sayDiagnostic (invocation : Invocation) (source : String) (diagnostic : Diagnostic) : String :=
  match invocation.messageFormat with
  | .human => diagnostic.human false [(invocation.input, source)]
  | .json => diagnostic.json.text ++ "\n"

/-- What is said about a failure, which has a line but no column. -/
def sayFailure (invocation : Invocation) (failure : Failure) : String :=
  match invocation.messageFormat with
  | .human => invocation.input ++ ": error: " ++ failure.message ++ "\n"
  | .json =>
    let location? := failure.line?.map fun line => ⟨invocation.input, line, 0⟩
    let diagnostic : Diagnostic := { message := failure.message, location? }
    diagnostic.json.text ++ "\n"

/-- The plan of a run that has failed. -/
def failed (invocation : Invocation) (failure : Failure) : Plan :=
  ⟨invocation.sayFailure failure, .nothing, false⟩

/-- Where a run delivers its assembly. -/
def deliver (invocation : Invocation) (assembly : String) : Delivery :=
  if invocation.options.checkOnly then .nothing
  else
    match invocation.output? with
    | some path => .write path assembly
    | none => .print assembly

/-- The plan of a run whose input has the given bytes. -/
def plan (invocation : Invocation) (content : Except FileFault ByteArray) : Plan :=
  -- Problems are told before anything is delivered, and they do not stop the delivery.
  let compiled : Except Failure (String × Compilation) := do
    let source ← decodeText (← content.mapError Failure.file)
    let compilation ← compile invocation.options invocation.input source
    return (source, compilation)
  match compiled with
  | .error failure => invocation.failed failure
  | .ok (source, compilation) =>
    { messages := String.join (compilation.diagnostics.map (invocation.sayDiagnostic source))
      delivery := invocation.deliver compilation.assembly
      succeeded := compilation.succeeded invocation.options }

end Invocation

/-- The number a run answers with. -/
def exitCode (succeeded : Bool) : Nat :=
  if succeeded then 0 else 1

/-- The number a run answers with when its arguments are refused. -/
def usageCode : Nat := 2

end SmallC
