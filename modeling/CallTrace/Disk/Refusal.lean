import CallTrace.Text.Encoding

/-!
# What a disk refuses

The operating system tells by a number and a few words why it does not do what it is asked for.
Some of these refusals follow from what stands at a place; others come from permissions, from a
lack of room, or from the device.
-/

namespace CallTrace

/-- The numbers of the refusals that have names of their own. -/
def namedRefusals : List Nat := [2, 5, 13, 17, 20, 21, 27, 28, 30, 32, 36, 40]

/-- A refusal that has no name of its own. -/
structure OtherRefusal where
  /-- Its number. -/
  number : Nat
  /-- Its words. -/
  words : String
  /-- The number is that of no other refusal. -/
  unnamed : number ∉ namedRefusals
  deriving DecidableEq

/-- Why the operating system refuses something. -/
inductive Refusal where
  /-- Nothing is there. -/
  | notFound
  /-- The device does not work. -/
  | faultyDevice
  /-- It is not permitted. -/
  | denied
  /-- Something is there already. -/
  | exists
  /-- What is passed through is no directory. -/
  | notDirectory
  /-- A directory stands where a file is needed. -/
  | isDirectory
  /-- The file would be too large. -/
  | tooLarge
  /-- There is no room left. -/
  | noRoom
  /-- The disk can only be read. -/
  | readOnly
  /-- Nobody reads what is written. -/
  | brokenPipe
  /-- A name, or the whole path, is too long. -/
  | nameTooLong
  /-- More links than can be followed are on the way. -/
  | tooManyLinks
  /-- Anything else. -/
  | other (r : OtherRefusal)
  deriving DecidableEq

namespace Refusal

/-- The number of a refusal. -/
def number : Refusal → Nat
  | .notFound => 2
  | .faultyDevice => 5
  | .denied => 13
  | .exists => 17
  | .notDirectory => 20
  | .isDirectory => 21
  | .tooLarge => 27
  | .noRoom => 28
  | .readOnly => 30
  | .brokenPipe => 32
  | .nameTooLong => 36
  | .tooManyLinks => 40
  | .other r => r.number

/-- The words of a refusal. -/
def words : Refusal → String
  | .notFound => "No such file or directory"
  | .faultyDevice => "Input/output error"
  | .denied => "Permission denied"
  | .exists => "File exists"
  | .notDirectory => "Not a directory"
  | .isDirectory => "Is a directory"
  | .tooLarge => "File too large"
  | .noRoom => "No space left on device"
  | .readOnly => "Read-only file system"
  | .brokenPipe => "Broken pipe"
  | .nameTooLong => "File name too long"
  | .tooManyLinks => "Too many levels of symbolic links"
  | .other r => r.words

/-- The refusals that have names of their own. -/
def named : List Refusal :=
  [.notFound, .faultyDevice, .denied, .exists, .notDirectory, .isDirectory, .tooLarge, .noRoom,
    .readOnly, .brokenPipe, .nameTooLong, .tooManyLinks]

/-- The refusal with a number, and with the given words if it has no name of its own. -/
def ofNumber (number : Nat) (words : String) : Refusal :=
  if h : number ∈ namedRefusals then (named.find? (·.number = number)).getD .faultyDevice
  else .other ⟨number, words, h⟩

/-- The text of a refusal, with the path that it concerns, if there is one. -/
def message (refusal : Refusal) (path? : Option Letters) : String :=
  "[Errno " ++ refusal.number.repr ++ "] " ++ refusal.words ++
    match path? with
    | some path => ": " ++ Text.quoted path
    | none => ""

/-- The numbers of the refusals that tell that no directory is there: nothing is, or something
else, or a file that is not open, or a loop of links. -/
def absences : List Nat := [2, 20, 9, 40]

/-- Whether a refusal tells that no directory is there. -/
def tellsAbsence (refusal : Refusal) : Bool := absences.contains refusal.number

end Refusal

/-- Why a file or a directory cannot be had or written. -/
inductive DiskError where
  /-- The operating system refuses it, and tells of which path if it was asked for one. -/
  | refused (refusal : Refusal) (path? : Option Letters)
  /-- A text has no bytes. -/
  | unencodable (e : EncodingError)
  /-- The path has a character that no path can have. -/
  | nullCharacter
  deriving DecidableEq

/-- The text of a disk error. -/
def DiskError.message : DiskError → String
  | .refused refusal path? => refusal.message path?
  | .unencodable e => e.message
  | .nullCharacter => "embedded null byte"

end CallTrace
