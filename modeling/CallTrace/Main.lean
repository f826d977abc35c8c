import CallTrace.CommandLine.Command

/-!
# The program

Reads the log, writes the report and prints what the command has to say. All
that is decided is decided by the command. The arguments come as Unicode and
what is printed is handed to the runtime, so no letter is ever a half and the
console of the command takes everything.
-/

namespace CallTrace

/-- What the operating system refused. -/
def Refusal.ofError : IO.Error → Refusal
  | .alreadyExists _ code words => .ofNumber code.toNat words
  | .otherError code words => .ofNumber code.toNat words
  | .resourceBusy code words => .ofNumber code.toNat words
  | .resourceVanished code words => .ofNumber code.toNat words
  | .unsupportedOperation code words => .ofNumber code.toNat words
  | .hardwareFault code words => .ofNumber code.toNat words
  | .unsatisfiedConstraints code words => .ofNumber code.toNat words
  | .illegalOperation code words => .ofNumber code.toNat words
  | .protocolError code words => .ofNumber code.toNat words
  | .timeExpired code words => .ofNumber code.toNat words
  | .interrupted _ code words => .ofNumber code.toNat words
  | .noFileOrDirectory _ code words => .ofNumber code.toNat words
  | .invalidArgument _ code words => .ofNumber code.toNat words
  | .permissionDenied _ code words => .ofNumber code.toNat words
  | .resourceExhausted _ code words => .ofNumber code.toNat words
  | .inappropriateType _ code words => .ofNumber code.toNat words
  | .noSuchThing _ code words => .ofNumber code.toNat words
  | .unexpectedEof => .faultyDevice
  | .userError _ => .faultyDevice

/-- A text as it is shown where a half has to be shown. -/
def Letters.shown (s : Letters) : String :=
  String.ofList (s.flatMap fun
    | .char c => [c]
    | .half h => Text.codeEscape (Letter.half h).toNat)

/-- Do something, and say what the operating system refused, of which path if of one. -/
def attempt {α : Type} (path? : Option Path) (action : IO α) : IO (Except DiskError α) := do
  try
    return .ok (← action)
  catch e =>
    return .error (.refused (Refusal.ofError e) (path?.map Path.text))

/-- Read chunk behind chunk, not more than the given number, up to the end or a fault. -/
def readChunks (handle : IO.FS.Handle) : Nat → List UInt8 → IO OpenedFile
  | 0, content => return { content := content }
  | count + 1, content => do
    match ← attempt none (handle.read chunkSize.toUSize) with
    | .error (.refused refusal _) => return { content := content, fault? := some refusal }
    | .error _ => return { content := content }
    | .ok chunk =>
      if chunk.isEmpty then return { content := content }
      else readChunks handle count (content ++ chunk.data.toList)

/-- Open a file on the disk and read it; a directory can be opened, but not be read. -/
def readDisk (path : Path) : IO (Except DiskError OpenedFile) := do
  match ← attempt (some path) (IO.FS.Handle.mk path.text.shown .read) with
  | .error e => return .error e
  | .ok handle =>
    let opened ← readChunks handle indexBound []
    if opened.fault? = some .isDirectory then
      return .error (.refused .isDirectory (some path.text))
    else return .ok opened

/-- Write a file on the disk below directories that are made where they are missing. -/
def writeDisk (path : Path) (text : Letters) : IO (Except DiskError Unit) := do
  match ← attempt (some path.parent) (IO.FS.createDirAll path.parent.text.shown) with
  | .error e => return .error e
  | .ok () =>
    match ← attempt (some path) (IO.FS.Handle.mk path.text.shown .write) with
    | .error e => return .error e
    | .ok handle =>
      match text.encode with
      | .error e => return .error (.unencodable e)
      | .ok content =>
        attempt none do
          handle.write ⟨content.toArray⟩
          handle.flush

/-- Print what the program has to say, and give its exit status. -/
def ProgramEnd.print (ending : ProgramEnd) : IO UInt32 := do
  IO.print ending.stdout.shown
  IO.eprint ending.stderr.shown
  match ending.status with
  | .ok status => return status.toUInt32
  | .error e =>
    IO.eprint (e.message ++ "\n")
    return 1

end CallTrace

open CallTrace in
/-- Check a log as the arguments ask for it. -/
def main (arguments : List String) : IO UInt32 := do
  let _ := Memory.addressable
  let _ := KnownTypes.ofLogs
  match Command.ofArguments (arguments.map Letters.ofString) with
  | .error early => (early.programEnd .open).print
  | .ok c =>
    let checked := c.run .open (← readDisk c.check.logPath)
    let written ← match c.reportFile? checked with
      | none => pure (.ok ())
      | some (path, text) => writeDisk path text
    (c.finish .open checked written).print
