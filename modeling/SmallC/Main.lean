import SmallC.Command.Plan

/-! The command: reads its file, says what it found and delivers the assembly. -/

namespace SmallC

/-- The number and the words with which the system refused a file. -/
def systemReason : IO.Error → UInt32 × String
  | .noFileOrDirectory _ code reason | .interrupted _ code reason
  | .invalidArgument _ code reason | .permissionDenied _ code reason
  | .resourceExhausted _ code reason | .inappropriateType _ code reason
  | .noSuchThing _ code reason | .alreadyExists _ code reason => (code, reason)
  | .otherError code reason | .resourceBusy code reason | .resourceVanished code reason
  | .unsupportedOperation code reason | .hardwareFault code reason
  | .unsatisfiedConstraints code reason | .illegalOperation code reason
  | .protocolError code reason | .timeExpired code reason => (code, reason)
  | .unexpectedEof => (0, "unexpected end of file")
  | .userError reason => (0, reason)

/-- The number of a refusal, which some actions give with its sign changed. -/
def systemNumber (code : UInt32) : Nat :=
  if code.toNat < 2147483648 then code.toNat else 4294967296 - code.toNat

/-- Why the system refused a file. -/
def faultOf (refusal : IO.Error) : FileFault :=
  let (code, reason) := systemReason refusal
  match systemNumber code with
  | 2 => .notFound
  | 20 => .notDirectory
  | 21 => .isDirectory
  | 28 => .noSpace
  | 36 => .nameTooLong
  | number => .other reason number

/-- Run an action on a file, keeping why it was refused. -/
def attempt {α : Type} (action : IO α) : IO (Except FileFault α) := do
  match ← action.toBaseIO with
  | .ok value => return .ok value
  | .error failure => return .error (faultOf failure)

/-- Carry out an invocation. -/
def perform (invocation : Invocation) : IO UInt32 := do
  let content ← attempt (IO.FS.readBinFile invocation.input)
  let plan := invocation.plan content
  IO.eprint plan.messages
  match plan.delivery with
  | .nothing => pure ()
  | .print text => IO.print text
  | .write path text =>
    if let .error fault ← attempt (IO.FS.writeFile path text) then
      let failed := invocation.failed (.file fault)
      IO.eprint failed.messages
      return UInt32.ofNat (exitCode failed.succeeded)
  return UInt32.ofNat (exitCode plan.succeeded)

end SmallC

/-- The command of the compiler. -/
def main (arguments : List String) : IO UInt32 := do
  match SmallC.Invocation.ofArguments? arguments with
  | some invocation => SmallC.perform invocation
  | none =>
    IO.eprintln "usage: smallc [OPTIONS] INPUT"
    return UInt32.ofNat SmallC.usageCode
