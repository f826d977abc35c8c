import CallTrace.Disk.Path
import CallTrace.Disk.Refusal

/-!
# A file system

Files, directories and links by the names that lead to them from the root, and a
working directory where other paths start. A path is followed name by name:
whatever is passed through has to be a directory, a name has a greatest length,
and a link leads on to what it names, but only so many links are followed. To
write a file is to empty it first, so a writing that stops leaves less than was
to be written.
-/

namespace CallTrace

/-- A name on a disk, in bytes. -/
abbrev FileName := List UInt8

/-- The names from the root to a place. -/
abbrev Location := List FileName

/-- What stands at a place. -/
inductive DiskEntry where
  /-- A file with its content. -/
  | file (content : List UInt8)
  /-- A directory. -/
  | directory
  /-- A link to what the names lead to, from the root or from where the link stands. -/
  | link (fromRoot : Bool) (names : List FileName)
  deriving DecidableEq

/-- A refusal for reasons that lie outside of what stands where. -/
structure Objection where
  /-- The refusal. -/
  refusal : Refusal
  /-- That nothing is there is no such reason. -/
  found : refusal ≠ .notFound

/-- To what a disk objects at which places. -/
structure Objections where
  /-- To the passing through a directory. -/
  pass : Location → Option Objection := fun _ => none
  /-- To the making of a directory. -/
  make : Location → Option Objection := fun _ => none
  /-- To the opening of a file or a directory that is to be read. -/
  openToRead : Location → Option Objection := fun _ => none
  /-- To the reading of a file behind so many of its bytes. -/
  read : Location → Option (Nat × Objection) := fun _ => none
  /-- To the opening or the making of a file that is to be written. -/
  openToWrite : Location → Option Objection := fun _ => none
  /-- To the writing of a content behind so many of its bytes. -/
  write : Location → List UInt8 → Option (Nat × Objection) := fun _ _ => none

/-- What stands where, and where relative paths start. -/
structure FileSystem where
  /-- All places but the root and the working directory. -/
  entries : List (Location × DiskEntry)
  /-- The working directory. -/
  working : Location
  /-- What the disk objects to. -/
  objections : Objections := {}

/-- A file that was opened. -/
structure OpenedFile where
  /-- The bytes that can be read. -/
  content : List UInt8
  /-- What is met behind them in the place of an end. -/
  fault? : Option Refusal := none
  deriving DecidableEq

/-- The name of the directory that a directory is in. -/
def upName : FileName := [46, 46]

/-- The greatest number of bytes in a name. -/
def nameLimit : Nat := 255

/-- The number of bytes from which on a path is too long. -/
def pathLimit : Nat := 4096

/-- The number of links that are followed on the way of one path. -/
def linkLimit : Nat := 40

namespace FileSystem

/-- What stands at a place. The root and the working directory are directories. -/
def lookup (fs : FileSystem) (place : Location) : Option DiskEntry :=
  if place = [] ∨ place = fs.working then some .directory
  else (fs.entries.find? fun e => e.1 = place).map (·.2)

/-- The file system with something else at a place. -/
def put (fs : FileSystem) (place : Location) (entry : DiskEntry) : FileSystem :=
  if fs.entries.any fun e => e.1 = place then
    { fs with entries := fs.entries.map fun e => if e.1 = place then (place, entry) else e }
  else { fs with entries := fs.entries ++ [(place, entry)] }

/-- The place that a name leads to from a directory; nothing need stand there. -/
def enter (fs : FileSystem) (place : Location) (name : FileName) : Except Refusal Location :=
  match fs.lookup place with
  | none => .error .notFound
  | some .directory =>
    match fs.objections.pass place with
    | some objection => .error objection.refusal
    | none =>
      if name = upName then .ok place.dropLast
      else if nameLimit < name.length then .error .nameTooLong
      else .ok (place ++ [name])
  | some _ => .error .notDirectory

/--
The place that names lead to, with the number of links that may still be followed. A link on the
way is followed by the given detour, and so is one at the end if the last is to be followed.
-/
def walkWith (fs : FileSystem) (last : Bool) (budget : Nat)
    (detour : Location → List FileName → Except Refusal (Location × Nat)) :
    Location → List FileName → Except Refusal (Location × Nat)
  | place, [] => .ok (place, budget)
  | place, name :: names =>
    match fs.enter place name with
    | .error refusal => .error refusal
    | .ok next =>
      match fs.lookup next with
      | some (.link fromRoot target) =>
        if names = [] ∧ last = false then .ok (next, budget)
        else detour (if fromRoot then [] else place) (target ++ names)
      | _ => fs.walkWith last budget detour next names

/-- The place that names lead to, with the number of links that may still be followed. -/
def walk (fs : FileSystem) (last : Bool) :
    (budget : Nat) → Location → List FileName → Except Refusal (Location × Nat)
  | 0 => fs.walkWith last 0 fun _ _ => .error .tooManyLinks
  | budget + 1 => fs.walkWith last (budget + 1) (fs.walk last budget)

/-- Where a path starts. -/
def startOf (fs : FileSystem) : PathStart → Location
  | .working => fs.working
  | _ => []

/-- The place that a path leads to; whether a link at its end is followed depends on the call. -/
def locate (fs : FileSystem) (last : Bool) (path : Path) : Except DiskError Location :=
  match path.text.systemBytes with
  | .error e => .error (.unencodable e)
  | .ok bytes =>
    if path.text.contains (.char '\x00') then .error .nullCharacter
    else if pathLimit ≤ bytes.length then .error (.refused .nameTooLong (some path.text))
    else
      match fs.walk last linkLimit (fs.startOf path.start) (path.names.map Letters.bytes) with
      | .ok (place, _) => .ok place
      | .error refusal => .error (.refused refusal (some path.text))

/-- Open a file to read it. -/
def openToRead (fs : FileSystem) (path : Path) : Except DiskError OpenedFile :=
  match fs.locate true path with
  | .error e => .error e
  | .ok place =>
    match fs.lookup place, fs.objections.openToRead place with
    | none, _ => .error (.refused .notFound (some path.text))
    | some _, some objection => .error (.refused objection.refusal (some path.text))
    | some .directory, none => .error (.refused .isDirectory (some path.text))
    | some (.link ..), none => .error (.refused .tooManyLinks (some path.text))
    | some (.file content), none =>
      match fs.objections.read place with
      | none => .ok { content := content }
      | some (count, objection) =>
        .ok { content := content.take count, fault? := some objection.refusal }

/-- The content of a file, where all of it can be read. -/
def read (fs : FileSystem) (path : Path) : Except DiskError (List UInt8) :=
  match fs.openToRead path with
  | .error e => .error e
  | .ok opened =>
    match opened.fault? with
    | none => .ok opened.content
    | some refusal => .error (.refused refusal none)

/--
Write a text to a file, whether or not it was there. The file is emptied or made before anything is
written to it, and keeps what was written before a failure.
-/
def write (fs : FileSystem) (path : Path) (text : Letters) : Except DiskError Unit × FileSystem :=
  match fs.locate true path with
  | .error e => (.error e, fs)
  | .ok place =>
    match fs.lookup place, fs.objections.openToWrite place with
    | some .directory, _ => (.error (.refused .isDirectory (some path.text)), fs)
    | some (.link ..), _ => (.error (.refused .tooManyLinks (some path.text)), fs)
    | _, some objection => (.error (.refused objection.refusal (some path.text)), fs)
    | _, none =>
      match text.encode with
      | .error e => (.error (.unencodable e), fs.put place (.file []))
      | .ok content =>
        match fs.objections.write place content with
        | none => (.ok (), fs.put place (.file content))
        | some (count, objection) =>
          (.error (.refused objection.refusal none), fs.put place (.file (content.take count)))

/-- Whether a path leads to a directory. -/
def isDirectory (fs : FileSystem) (path : Path) : Except DiskError Bool :=
  match fs.locate true path with
  | .ok place => .ok (fs.lookup place = some .directory)
  | .error (.refused refusal path?) =>
    if refusal.tellsAbsence then .ok false else .error (.refused refusal path?)
  | .error _ => .ok false

/-- Make a directory where nothing stands, not even a link. -/
def makeDirectory (fs : FileSystem) (path : Path) : Except DiskError FileSystem :=
  match fs.locate false path with
  | .error e => .error e
  | .ok place =>
    match fs.lookup place, fs.objections.make place with
    | some _, _ => .error (.refused .exists (some path.text))
    | none, some objection => .error (.refused objection.refusal (some path.text))
    | none, none => .ok (fs.put place .directory)

/-- Make a directory unless it is there. -/
def ensureDirectory (fs : FileSystem) (path : Path) : Except DiskError FileSystem :=
  match fs.makeDirectory path with
  | .ok fs => .ok fs
  | .error (.refused .notFound path?) => .error (.refused .notFound path?)
  | .error (.refused refusal path?) =>
    match fs.isDirectory path with
    | .error e => .error e
    | .ok true => .ok fs
    | .ok false => .error (.refused refusal path?)
  | .error e => .error e

/--
Make a directory and whatever is missing above it, unless it is there. What was
made above it stays when the directory itself cannot be made.
-/
def ensureDirectories (fs : FileSystem) (path : Path) : Except DiskError Unit × FileSystem :=
  match fs.ensureDirectory path with
  | .ok fs => (.ok (), fs)
  | .error (.refused .notFound path?) =>
    if path.names = [] then (.error (.refused .notFound path?), fs)
    else
      match fs.ensureDirectories path.parent with
      | (.error e, fs) => (.error e, fs)
      | (.ok (), fs) =>
        match fs.ensureDirectory path with
        | .ok fs => (.ok (), fs)
        | .error e => (.error e, fs)
  | .error e => (.error e, fs)
termination_by path.names.length
decreasing_by exact Path.length_parent_lt ‹_›

/-- Write a text to a file below directories that are made where they are missing. -/
def writeBelow (fs : FileSystem) (path : Path) (text : Letters) :
    Except DiskError Unit × FileSystem :=
  match fs.ensureDirectories path.parent with
  | (.error e, fs) => (.error e, fs)
  | (.ok (), fs) => fs.write path text

end FileSystem

end CallTrace
