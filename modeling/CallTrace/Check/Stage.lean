/-!
# Stages

A log shows that a blob went through the cache if it has, in this order and
among calls that do not matter, a lookup of the blob, uploads of which one is
of the blob, and an execution that produces it. A check stands at one of three
stages on this way, and a method has one of three roles in it or none.
-/

namespace CallTrace

/-- What a check waits for. -/
inductive Stage where
  /-- A lookup of the blob. -/
  | awaitLookup
  /-- An upload of the blob. -/
  | awaitUpload
  /-- An execution that produces the blob. -/
  | awaitExecute
  deriving DecidableEq

namespace Stage

/-- The name of a stage. -/
def name : Stage → String
  | .awaitLookup => "AWAIT_LOOKUP"
  | .awaitUpload => "AWAIT_UPLOAD"
  | .awaitExecute => "AWAIT_EXECUTE"

/-- The stage of a name. -/
def ofName? (s : String) : Option Stage :=
  [awaitLookup, awaitUpload, awaitExecute].find? fun stage => stage.name = s

/-- The call that a stage waits for. -/
def awaited : Stage → String
  | .awaitLookup => "FindMissingBlobs"
  | .awaitUpload => "Write"
  | .awaitExecute => "Execute"

theorem ofName?_name (stage : Stage) : ofName? stage.name = some stage := by
  cases stage <;> decide

end Stage

/-- The three kinds of call that matter. -/
inductive Role where
  /-- A lookup of blobs. -/
  | lookup
  /-- An upload. -/
  | upload
  /-- An execution. -/
  | execution
  deriving DecidableEq

namespace Role

/-- What ends the name of a method in a role. -/
def methodEnding : Role → String
  | .lookup => "/FindMissingBlobs"
  | .upload => "/Write"
  | .execution => "/Execute"

/-- Whether a method has a role. -/
def hasMethod (role : Role) (method : String) : Bool :=
  role.methodEnding.toList.isSuffixOf method.toList

/-- The role of a method; no name has two endings. -/
def ofMethod? (method : String) : Option Role :=
  [lookup, upload, execution].find? fun role => role.hasMethod method

end Role

/-- Whether calls of a method do not matter. -/
def isUnrelated (method : String) : Bool := (Role.ofMethod? method).isNone

end CallTrace
