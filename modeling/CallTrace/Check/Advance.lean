import CallTrace.Check.Finding
import CallTrace.Message.CallLog
import CallTrace.Operation.Conclusion
import CallTrace.Target

/-!
# Advancing by one entry

An entry whose method has no role leaves a check where it is. Any other entry
moves it on by one stage, keeps it where more uploads may come, or ends it. A
check looks at nothing in an entry but its method and, by stage, the digests
it looks up, the names it uploads to, or the result of the first operation
that is done.
-/

namespace CallTrace

/-- What an entry makes of a check. -/
inductive Ruling where
  /-- The check goes on. -/
  | goOn (progress : Option Milestone)
  /-- The check ends. -/
  | final (finding : Finding)
  deriving DecidableEq

/-- Where a check stands after an entry. -/
structure Advance where
  /-- The stage after the entry. -/
  stage : Stage
  /-- What the entry makes of the check. -/
  ruling : Ruling
  /-- Lines about the response of an execution. -/
  notes : List String := []
  deriving DecidableEq

namespace Advance

/-- What ended the check, once it has ended. -/
def finding? (a : Advance) : Option Finding :=
  match a.ruling with
  | .goOn _ => none
  | .final finding => some finding

/-- The verdict, once there is one. -/
def verdict? (a : Advance) : Option Verdict := a.finding?.map Finding.verdict

/-- The kind of issue that a verdict other than a pass is. -/
def kind? (a : Advance) : Option IssueKind := a.finding?.bind Finding.kind?

/-- The words for the verdict. -/
def message? (a : Advance) : Option String := a.finding?.map Finding.message

/-- What is worth telling. -/
def progress? (a : Advance) : Option String :=
  match a.ruling with
  | .goOn milestone => milestone.map Milestone.text
  | .final (.passed hash) => some (Milestone.outputFound hash).text
  | .final _ => none

/-- Stop at a violation. -/
def violation (stage : Stage) (v : Violation) : Advance :=
  { stage := stage, ruling := .final (.violated v) }

end Advance

/-- What keeps a check from advancing. -/
inductive AdvanceError where
  /-- The response of the execution cannot be had. -/
  | response (e : ResponseError)
  /-- A message has no text. -/
  | rendering (e : DecodeError)
  deriving DecidableEq

/-- The text of an advance error. -/
def AdvanceError.message : AdvanceError → String
  | .response e => e.message
  | .rendering e => e.message

namespace LogEntry

/-- The digests that a call looks up. -/
def lookedUp (entry : LogEntry) : List Digest :=
  match entry.call?.bind CallDetails.findMissingBlobs? with
  | some details => (details.request.map (·.blobDigests)).getD []
  | none => []

/-- The names that a call uploads to. -/
def uploadedNames (entry : LogEntry) : List String :=
  match entry.call?.bind CallDetails.write? with
  | some details => details.resourceNames
  | none => []

/-- The operations that an execution streams. -/
def executions (entry : LogEntry) : List Operation :=
  match entry.call?.bind CallDetails.execute? with
  | some details => details.responses
  | none => []

end LogEntry

/-- The digests of the files that an execution produced. -/
def ExecuteResponse.outputDigests (response : ExecuteResponse) : List Digest :=
  ((response.result.map (·.outputFiles)).getD []).map fun file => file.digest.getD {}

namespace Stage

/-- A call that matters, while a lookup is awaited. -/
def onLookup (entry : LogEntry) (role : Role) (target : Target) : Advance :=
  match role with
  | .lookup =>
    if target.isListedIn entry.lookedUp then
      { stage := .awaitUpload, ruling := .goOn (some (.lookupFound target.hash)) }
    else .violation .awaitLookup (.missingLookupDigest target.hash)
  | _ => .violation .awaitLookup (.unexpectedMethod .awaitLookup entry.methodName target.hash)

/-- A call that matters, while an upload is awaited. -/
def onUpload (entry : LogEntry) (role : Role) (target : Target) : Advance :=
  match role with
  | .upload =>
    if target.endsSome entry.uploadedNames then
      { stage := .awaitExecute, ruling := .goOn (some (.uploadFound target.hash)) }
    else { stage := .awaitUpload, ruling := .goOn (some .otherUpload) }
  | _ => .violation .awaitUpload (.unexpectedMethod .awaitUpload entry.methodName target.hash)

/-- What the conclusion of an execution makes of the check. -/
def findingOf (target : Target) : Conclusion .executeResponse → Finding
  | .success (payload : ExecuteResponse) =>
    if target.isListedIn payload.outputDigests then .passed target.hash
    else .violated (.missingOutputDigest target.hash)
  | _ => .violated .unexpectedResponse

variable [KnownTypes]

/-- The first execution; what it came to is noted whether or not it is what it should be. -/
def onExecution (entry : LogEntry) (target : Target) : Except AdvanceError Advance :=
  match Operation.firstFinished? entry.executions with
  | none => .ok (.violation .awaitExecute .missingDoneResponse)
  | some op =>
    match op.conclude .executeResponse with
    | .error e => .error (.response e)
    | .ok conclusion =>
      match conclusion.lines "ExecuteResponse" "Operation" with
      | .error e => .error (.rendering e)
      | .ok notes => .ok ⟨.awaitExecute, .final (findingOf target conclusion), notes⟩

/-- A call that matters, while an execution is awaited. -/
def onExecute (entry : LogEntry) (role : Role) (target : Target) : Except AdvanceError Advance :=
  match role with
  | .upload => .ok { stage := .awaitExecute, ruling := .goOn none }
  | .execution => onExecution entry target
  | .lookup =>
    .ok (.violation .awaitExecute (.unexpectedMethod .awaitExecute entry.methodName target.hash))

/-- One entry at a stage. -/
def advance (stage : Stage) (entry : LogEntry) (target : Target) : Except AdvanceError Advance :=
  match Role.ofMethod? entry.methodName with
  | none => .ok { stage := stage, ruling := .goOn none }
  | some role =>
    match stage with
    | .awaitLookup => .ok (onLookup entry role target)
    | .awaitUpload => .ok (onUpload entry role target)
    | .awaitExecute => onExecute entry role target

/-- The end of a log at a stage. -/
def ranOut (stage : Stage) : Advance := { stage := stage, ruling := .final (.ranOut stage) }

end Stage

end CallTrace
