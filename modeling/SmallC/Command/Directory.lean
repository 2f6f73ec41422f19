import SmallC.Command.Plan
import SmallC.Command.Surroundings

/-! Runs in a working directory of plain files, seen by paths. -/

namespace SmallC

/-- A directory without directories inside, as names and contents. -/
structure Directory where
  /-- The files, the latest first. -/
  files : List (String × ByteArray) := []

/-- Where a text that has been written can be seen. -/
inductive Written where
  /-- In a file of the directory. -/
  | kept (directory : Directory)
  /-- Among what the run prints. -/
  | printed
  /-- Among what the run says about problems. -/
  | said
  /-- Nowhere that matters here. -/
  | gone

namespace Directory

/-- The content of a file. -/
def content? (directory : Directory) (name : String) : Option ByteArray :=
  (directory.files.find? fun file => file.1 == name).map Prod.snd

/-- The directory with a file replaced or added. -/
def put (directory : Directory) (name : String) (bytes : ByteArray) : Directory :=
  ⟨(name, bytes) :: directory.files.filter fun file => file.1 != name⟩

/-- What is read under a name, when there is a file. -/
def readEntry? (directory : Directory) : Station → String → Option (Except FileFault ByteArray)
  -- Only the own files and the devices are known.
  | .own, name => (directory.content? name).map .ok
  | .devices, name => (Device.named? name).map Device.read
  | .root, _ | .outside, _ => none

/-- What a path leads to. -/
def resolve (directory : Directory) (path : String) : Destination :=
  destination (fun station name => (directory.readEntry? station name).isSome) path

/-- The bytes of the file at a path. -/
def read (directory : Directory) (path : String) : Except FileFault ByteArray :=
  -- A slash after the name of a file asks for a directory.
  match directory.resolve path with
  | .entry station name slashed =>
    if nameLimit < name.utf8ByteSize then .error .nameTooLong
    else
      match directory.readEntry? station name with
      | some bytes => if slashed then .error .notDirectory else bytes
      | none => .error .notFound
  | .directory => .error .isDirectory
  | .fault fault => .error fault

/-- Write a text to a device. -/
def writeDevice (text : String) : Device → Except FileFault Written
  -- Even a device without room takes nothing at all.
  | .null | .input => .ok .gone
  | .full => if text.isEmpty then .ok .gone else .error .noSpace
  | .output => .ok .printed
  | .messages => .ok .said

/-- Write a text under a name. -/
def writeEntry (directory : Directory) (text : String) :
    Station → String → Except FileFault Written
  -- Files in other directories are made too, where this run never looks.
  | .own, name => .ok (.kept (directory.put name text.toUTF8))
  | .devices, name => ((Device.named? name).map (writeDevice text)).getD (.ok .gone)
  | .root, _ | .outside, _ => .ok .gone

/-- Write a text to the file at a path. -/
def write (directory : Directory) (path text : String) : Except FileFault Written :=
  match directory.resolve path with
  | .entry station name slashed =>
    -- No file is made under a name that only a directory may have, however long it is.
    if slashed then .error .isDirectory
    else if nameLimit < name.utf8ByteSize then .error .nameTooLong
    else directory.writeEntry text station name
  | .directory => .error .isDirectory
  | .fault fault => .error fault

end Directory

/-- What a run leaves behind. -/
structure Execution where
  /-- The number it answers with. -/
  code : Nat
  /-- What it printed. -/
  printed : String := ""
  /-- What it said about problems. -/
  messages : String := ""
  /-- The working directory afterwards. -/
  directory : Directory

/-- Carry a plan out in a directory. -/
def Plan.execute (plan : Plan) (invocation : Invocation) (directory : Directory) : Execution :=
  let code := exitCode plan.succeeded
  let messages := plan.messages
  match plan.delivery with
  | .nothing => { code, messages, directory }
  | .print text => { code, printed := text, messages, directory }
  | .write path text =>
    match directory.write path text with
    | .ok (.kept directory) => { code, messages, directory }
    | .ok .printed => { code, printed := text, messages, directory }
    | .ok .said => { code, messages := messages ++ text, directory }
    | .ok .gone => { code, messages, directory }
    | .error fault =>
      let failed := invocation.failed (.file fault)
      { code := exitCode failed.succeeded, messages := messages ++ failed.messages, directory }

/-- Run a command in a directory, or refuse its arguments. -/
def runCommand? (arguments : List String) (directory : Directory) : Option Execution :=
  (Invocation.ofArguments? arguments).map fun invocation =>
    (invocation.plan (directory.read invocation.input)).execute invocation directory

end SmallC
