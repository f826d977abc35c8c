import CallTrace.Check.Stage
import CallTrace.Disk.Path
import CallTrace.Target
import CallTrace.Validation.Display

/-!
# What to check

A check needs the path of a log and the target that the log has to show. A
single step of it needs the stage that the check stands at.
-/

namespace CallTrace

/-- A check to be made. -/
structure LogCheck where
  /-- Where the log is. -/
  logPath : Path
  /-- The blob that has to be looked up, uploaded and produced. -/
  target : Target
  deriving DecidableEq

/-- A value that was offered for a path by itself and is no text. -/
structure UnusablePath where
  /-- The value. -/
  value : RawValue

/-- The text of a value that is no path. -/
def UnusablePath.message (e : UnusablePath) : String :=
  "expected str, bytes or os.PathLike object, not " ++ e.value.kindName

/-- The path that a value stands for. -/
def Path.ofRawValue : RawValue → Except UnusablePath Path
  | .text s => .ok (Path.ofLetters s)
  | value => .error ⟨value⟩

/-- The path that the value of a field stands for. -/
def RawValue.path (value : RawValue) : Except Misfit Path :=
  (Path.ofRawValue value).mapError fun _ => .notPath

/-- The check that raw values stand for, or all that is wrong with them. -/
def LogCheck.ofRecord (record : RawRecord) : Except (List FieldIssue) LogCheck :=
  match record.read "log_path" RawValue.path, record.read "file_hash" RawValue.nonemptyText,
    record.read "size_bytes" RawValue.count with
  | .ok path, .ok hash, .ok size => .ok ⟨path, .ofParts hash size⟩
  | path, hash, size => .error (issueOf path ++ issueOf hash ++ issueOf size)

/-- A value that was offered for a stage and names none. -/
structure UnknownStage where
  /-- The value. -/
  value : RawValue

/-- The text of a value that names no stage. -/
def UnknownStage.message (e : UnknownStage) : String := e.value.display ++ " is not a valid Stage"

/-- The stage that a value names. -/
def Stage.ofRawValue (value : RawValue) : Except UnknownStage Stage :=
  match value with
  | .text s =>
    match (Letters.toString? s).bind Stage.ofName? with
    | some stage => .ok stage
    | none => .error ⟨value⟩
  | _ => .error ⟨value⟩

end CallTrace
