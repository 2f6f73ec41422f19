import SmallC.Report.Path
import SmallC.Source.Failure

/-! Surroundings of a run: the directories a path may pass through, and the devices. -/

namespace SmallC

/-- A directory, as far as a run knows it. -/
inductive Station where
  /-- The working directory. -/
  | own
  /-- The directory that holds all others. -/
  | root
  /-- The directory of the devices. -/
  | devices
  /-- Some other directory, of whose content nothing is known. -/
  | outside
  deriving DecidableEq, Repr

/-- Directories of the root that every system has, besides that of the devices. -/
def systemDirectories : List String :=
  ["bin", "etc", "home", "lib", "proc", "root", "sbin", "sys", "tmp", "usr", "var"]

namespace Station

/-- The directory that a name leads to, if it is known to lead to one. -/
def enter? (station : Station) (name : String) : Option Station :=
  -- Only the root has directories that are known by name.
  if station ≠ .root then none
  else if name = "dev" then some .devices
  else if systemDirectories.contains name then some .outside
  else none

/-- The directory that holds this one; the root holds itself. -/
def holder : Station → Station
  | .own | .outside => .outside
  | .root | .devices => .root

end Station

/-- A file of the system that keeps nothing. -/
inductive Device where
  /-- Takes everything and holds nothing. -/
  | null
  /-- Has no room and never ends. -/
  | full
  /-- What the run is given to read, which is nothing. -/
  | input
  /-- What the run prints. -/
  | output
  /-- What the run says about problems. -/
  | messages
  deriving DecidableEq, Repr

namespace Device

/-- The device of a name. -/
def named? : String → Option Device
  | "null" => some .null
  | "full" => some .full
  | "stdin" => some .input
  | "stdout" => some .output
  | "stderr" => some .messages
  | _ => none

/-- What is read from a device. -/
def read : Device → Except FileFault ByteArray
  -- No memory holds what never ends.
  | .full => .error (.other "Cannot allocate memory" 12)
  | .null | .input | .output | .messages => .ok .empty

end Device

/-- The bytes that a name may have. -/
def nameLimit : Nat := 255

/-- The bytes that a path may have, the zero byte that closes it being one more. -/
def pathLimit : Nat := 4095

/-- What the steps of a path lead to. -/
inductive Destination where
  /-- A name in a directory that may have a file, and whether a slash follows it. -/
  | entry (station : Station) (name : String) (slashed : Bool)
  /-- A directory. -/
  | directory
  /-- Nothing, for the given reason. -/
  | fault (fault : FileFault)
  deriving DecidableEq, Repr

/-- Follow the steps of a path from a directory; the test tells which names have a file. -/
def follow (isFile : Station → String → Bool) (station : Station) :
    List (List Char) → Destination
  | [] => .directory
  | step :: rest =>
    if step = [] ∨ step = ['.'] then follow isFile station rest
    else if step = ['.', '.'] then follow isFile station.holder rest
    else
      let name := String.ofList step
      match station.enter? name with
      | some inner => follow isFile inner rest
      | none =>
        -- Slashes alone do not lead on, and nothing else leads on from a file.
        if rest.all List.isEmpty then .entry station name !rest.isEmpty
        else if nameLimit < name.utf8ByteSize then .fault .nameTooLong
        else .fault (if isFile station name then .notDirectory else .notFound)

/-- What a path leads to from the working directory. -/
def destination (isFile : Station → String → Bool) (path : String) : Destination :=
  -- The length of the whole path counts before any of its names.
  if pathLimit < path.utf8ByteSize then .fault .nameTooLong
  else
    let steps := path.toList
    follow isFile (if steps.head? = some '/' then .root else .own) (piecesBetween '/' steps)

end SmallC
