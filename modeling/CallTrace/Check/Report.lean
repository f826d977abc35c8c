import CallTrace.Check.Session
import CallTrace.Json.Canonical

/-!
# Reports

A report says how a check ended, how far it came, and by its hash which log
was checked. A check that did not pass has one issue.
-/

namespace CallTrace

/-- Why a check did not pass. -/
structure Issue where
  /-- The kind of reason. -/
  kind : IssueKind
  /-- The reason in words. -/
  message : Letters
  /-- What the check was waiting for. -/
  stage : Stage
  /-- The position of the entry at fault, if one is. -/
  entryIndex : Option Nat
  deriving DecidableEq

/-- What came of a check. -/
structure Report where
  /-- Whether the check passed. -/
  ok : Bool
  /-- How the check ended. -/
  verdict : Verdict
  /-- What it was waiting for at the end. -/
  stage : Stage
  /-- How many entries were taken. -/
  entriesRead : Nat
  /-- The end in words. -/
  message : Letters
  /-- The hash of the whole log, if the log could be had. -/
  logHash : Option String
  /-- The reasons for not passing. -/
  issues : List Issue
  deriving DecidableEq

/-- The issue that a finding is; only a violation has an entry at fault, the last one taken. -/
def Finding.issues (finding : Finding) (session : Session) : List Issue :=
  match finding with
  | .passed _ => []
  | .violated v => [⟨v.kind, v.message, session.stage, some (session.entriesRead - 1)⟩]
  | .ranOut _ => [⟨.logExhausted, finding.message, session.stage, none⟩]

namespace Report

/-- The report on a finding of the session. -/
def ofFinding (finding : Finding) (session : Session) (logHash : String) : Report where
  ok := finding.verdict = .pass
  verdict := finding.verdict
  stage := session.stage
  entriesRead := session.entriesRead
  message := finding.message
  logHash := some logHash
  issues := finding.issues session

/-- The report on a log that cannot be had or read. -/
def ofFault (kind : IssueKind) (message : Letters) (session : Session) (logHash : Option String) :
    Report where
  ok := false
  verdict := .fail
  stage := session.stage
  entriesRead := session.entriesRead
  message := message
  logHash := logHash
  issues := [⟨kind, message, session.stage, none⟩]

end Report

/-- An issue as a value. -/
def Issue.json (i : Issue) : Json :=
  .object
    [ ("code", .string i.kind.name),
      ("message", .string i.message),
      ("stage", .string i.stage.name),
      ("entry_index", match i.entryIndex with
        | some n => .int n
        | none => .null) ]

/-- A report as a value. -/
def Report.json (r : Report) : Json :=
  .object
    [ ("ok", .bool r.ok),
      ("verdict", .string r.verdict.name),
      ("stage", .string r.stage.name),
      ("entries_read", .int r.entriesRead),
      ("message", .string r.message),
      ("log_sha256", .stringOrNull (r.logHash.map Letters.ofString)),
      ("issues", .array (r.issues.map Issue.json)) ]

end CallTrace
