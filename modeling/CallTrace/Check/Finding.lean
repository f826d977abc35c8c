import CallTrace.Check.Stage

/-!
# Findings

What there is to tell of a check: milestones on the way, and the finding that
ends it. The log shows all it should, shows something else, or ends too early.
-/

namespace CallTrace

/-- Something worth telling on the way. -/
inductive Milestone where
  /-- The lookup of the blob. -/
  | lookupFound (hash : String)
  /-- An upload of something else. -/
  | otherUpload
  /-- The upload of the blob. -/
  | uploadFound (hash : String)
  /-- The execution that produces the blob. -/
  | outputFound (hash : String)
  deriving DecidableEq

/-- The words for a milestone. -/
def Milestone.text : Milestone → String
  | .lookupFound hash => "Found first FindMissingBlobs, with expected digest (" ++ hash ++ ")"
  | .otherUpload => "Found Write before first Execute, but not the expected digest yet"
  | .uploadFound hash => "Found Write with expected digest (" ++ hash ++ ")"
  | .outputFound hash =>
    "Found first Execute, with expected digest (" ++ hash ++ ") in its output files"

/-- Why a check did not pass. -/
inductive IssueKind where
  /-- A call that matters came at the wrong stage. -/
  | unexpectedMethod
  /-- The first lookup is not of the blob. -/
  | missingLookupDigest
  /-- The first execution was not recorded to its end. -/
  | missingDoneResponse
  /-- The first execution ended without a response. -/
  | unexpectedResponse
  /-- The first execution does not produce the blob. -/
  | missingOutputDigest
  /-- The log holds something that is no record, or a response that cannot be had. -/
  | decodeError
  /-- There is no log. -/
  | logNotFound
  /-- The log cannot be read. -/
  | logUnreadable
  /-- The log ends too early. -/
  | logExhausted
  deriving DecidableEq

/-- The code of a kind of issue. -/
def IssueKind.name : IssueKind → String
  | .unexpectedMethod => "UNEXPECTED_METHOD"
  | .missingLookupDigest => "MISSING_LOOKUP_DIGEST"
  | .missingDoneResponse => "MISSING_DONE_RESPONSE"
  | .unexpectedResponse => "UNEXPECTED_RESPONSE"
  | .missingOutputDigest => "MISSING_OUTPUT_DIGEST"
  | .decodeError => "DECODE_ERROR"
  | .logNotFound => "LOG_NOT_FOUND"
  | .logUnreadable => "LOG_UNREADABLE"
  | .logExhausted => "LOG_EXHAUSTED"

/-- How a log fails to show what it should. -/
inductive Violation where
  /-- A call that matters, but not at this stage. -/
  | unexpectedMethod (stage : Stage) (method hash : String)
  /-- The first lookup is not of the blob. -/
  | missingLookupDigest (hash : String)
  /-- The first execution was not recorded to its end. -/
  | missingDoneResponse
  /-- The first execution ended without a response. -/
  | unexpectedResponse
  /-- The first execution does not produce the blob. -/
  | missingOutputDigest (hash : String)
  deriving DecidableEq

/-- What a stage would have accepted in place of an unexpected call. -/
def Stage.expectation (stage : Stage) (hash : String) : String :=
  match stage with
  | .awaitLookup => "FindMissingBlobs"
  | .awaitUpload => "at least one Write for digest: " ++ hash
  | .awaitExecute => "Execute"

namespace Violation

/-- The words for a violation. -/
def message : Violation → String
  | .unexpectedMethod stage method hash =>
    "Unexpected method: " ++ method ++ ". Expected " ++ stage.expectation hash
  | .missingLookupDigest hash => "Found FindMissingBlob, but missing expected digest: " ++ hash
  | .missingDoneResponse => "Found first Execute, but missing response with 'done == True'"
  | .unexpectedResponse => "Found first Execute, but got unexpected response"
  | .missingOutputDigest hash =>
    "Found first Execute, but it is missing the expected digest (" ++ hash ++ ") in output files"

/-- The kind of a violation. -/
def kind : Violation → IssueKind
  | .unexpectedMethod .. => .unexpectedMethod
  | .missingLookupDigest _ => .missingLookupDigest
  | .missingDoneResponse => .missingDoneResponse
  | .unexpectedResponse => .unexpectedResponse
  | .missingOutputDigest _ => .missingOutputDigest

end Violation

/-- How a check ended. -/
inductive Verdict where
  /-- The log shows all it should. -/
  | pass
  /-- The log shows something else, or cannot be read. -/
  | fail
  /-- The log ends too early. -/
  | incomplete
  deriving DecidableEq

/-- The name of a verdict. -/
def Verdict.name : Verdict → String
  | .pass => "PASS"
  | .fail => "FAIL"
  | .incomplete => "INCOMPLETE"

/-- What ends a check. -/
inductive Finding where
  /-- The blob of this hash was produced. -/
  | passed (hash : String)
  /-- The log fails to show what it should. -/
  | violated (violation : Violation)
  /-- The log ended while the check was still at this stage. -/
  | ranOut (stage : Stage)
  deriving DecidableEq

namespace Finding

/-- The verdict of a finding. -/
def verdict : Finding → Verdict
  | .passed _ => .pass
  | .violated _ => .fail
  | .ranOut _ => .incomplete

/-- The kind of issue that a finding is; a pass is none. -/
def kind? : Finding → Option IssueKind
  | .passed _ => none
  | .violated v => some v.kind
  | .ranOut _ => some .logExhausted

/-- The words for a finding. -/
def message : Finding → String
  | .passed hash => (Milestone.outputFound hash).text
  | .violated v => v.message
  | .ranOut stage => "Log ended while still expecting " ++ stage.awaited

end Finding

end CallTrace
