import CallTrace.Check.Report
import CallTrace.Check.Request
import CallTrace.Disk.FileSystem
import CallTrace.Record.Requests

/-!
# Checking a log

A session takes the records of a file as they are read, and the file is hashed
to its end whatever part of it the session needed. A log that cannot be had or
read is a failed check like one that shows the wrong trace, and so is a console
that refuses what the session says. Only an entry that has no text, a declared
length that no block of memory can have, a path that is none and a letter that
the console has no place for leave the check without a report.
-/

namespace CallTrace

/-- Why a check has no report. -/
inductive CheckError where
  /-- A message has no text. -/
  | rendering (e : DecodeError)
  /-- A declared length is too large to be read. -/
  | request (e : RequestError)
  /-- The path of the log, or what is said of it, has no bytes. -/
  | unencodable (e : EncodingError)
  /-- The path of the log has a character that no path can have. -/
  | nullCharacter
  deriving DecidableEq

/-- The text of a check error. -/
def CheckError.message : CheckError → String
  | .rendering e => e.message
  | .request e => e.message
  | .unencodable e => e.message
  | .nullCharacter => DiskError.nullCharacter.message

/-- How a run over a log ends. -/
inductive Ending where
  /-- With a finding of the session. -/
  | finding (finding : Finding)
  /-- With an entry that leads nowhere. -/
  | stuck (e : AdvanceError)
  /-- With something that is no record. -/
  | unread (e : ReadError)
  /-- With a device that fails, or with a console that does not take what is said. -/
  | interrupted (e : Interruption)
  deriving DecidableEq

/-- What comes of giving an entry to a session that has a console. -/
structure Fed where
  /-- Where the entry led, or how it ended the run. -/
  outcome : Except Ending Advance
  /-- The session after it. -/
  session : Session
  /-- All that was said. -/
  said : Letters

/-- What comes of a run over a log. -/
structure LogRun where
  /-- How it ended. -/
  ending : Ending
  /-- The session at the end. -/
  session : Session
  /-- All that was said. -/
  said : Letters
  /-- The log at the end. -/
  log : OpenLog

namespace Session

variable [KnownTypes]

/--
Give an entry to a session. The entry counts before anything is said of it, and the stage is
reached before it is told.
-/
def feed (s : Session) (console : Console) (said : Letters) (entry : LogEntry) : Fed :=
  let s := { s with entriesRead := s.entriesRead + 1 }
  match s.announcement entry with
  | .error e => ⟨.error (.stuck (.rendering e)), s, said⟩
  | .ok pieces =>
    match console.say said (pieces.map Letters.ofString) with
    | (said, some e) => ⟨.error (.interrupted e), s, said⟩
    | (said, none) =>
      match s.stage.advance entry s.target with
      | .error e => ⟨.error (.stuck e), s, said⟩
      | .ok a =>
        let s := { s with stage := a.stage }
        match console.say said ((s.notes a ++ s.progress a).map Letters.ofString) with
        | (said, some e) => ⟨.error (.interrupted e), s, said⟩
        | (said, none) => ⟨.ok a, s, said⟩

variable [Memory]

/-- Take the entries of a log, off which so many were read before, up to a finding or an error. -/
def takeFrom (s : Session) (console : Console) (said : Letters) (log : OpenLog) (taken : Nat) :
    LogRun :=
  match _h : (askRecord .logEntry taken).onLog log with
  | .error refusal => ⟨.interrupted (.refused refusal), s, said, log⟩
  | .ok (.error e, log) => ⟨.unread e, s, said, log⟩
  | .ok (.ok none, log) => ⟨.finding (.ranOut s.stage), s, said, log⟩
  | .ok (.ok (some entry), log') =>
    let fed := s.feed console said entry
    match fed.outcome with
    | .error ending => ⟨ending, fed.session, fed.said, log'⟩
    | .ok a =>
      match a.ruling with
      | .final finding => ⟨.finding finding, fed.session, fed.said, log'⟩
      | .goOn _ => fed.session.takeFrom console fed.said log' (taken + 1)
termination_by log.left
decreasing_by exact Requests.left_lt_of_askRecord _h

end Session

/-- What comes of a check. -/
structure Checked where
  /-- The report, or why there is none. -/
  outcome : Except CheckError Report
  /-- What was said on the way. -/
  printed : Letters

namespace LogCheck

/-- The session at the beginning of a check. -/
def session (check : LogCheck) (verbose : Bool) : Session :=
  { target := check.target, verbose := verbose }

/-- The report on a log, or on a console, that the operating system refuses. -/
def refused (check : LogCheck) (session : Session) (refusal : Refusal) (path? : Option Letters) :
    Report :=
  if refusal = .notFound then
    .ofFault .logNotFound ("Log file not found: " ++ check.logPath.text) session none
  else
    .ofFault .logUnreadable
      ("Cannot read log file " ++ check.logPath.text ++ ": " ++ refusal.message path?) session none

/--
The report on a run that ended so with the session, given the hash of the whole log or why what was
left of the log could not be read.
-/
def reportOn (check : LogCheck) (ending : Ending) (session : Session)
    (logHash : Except Refusal String) : Except CheckError Report :=
  match ending, logHash with
  | .stuck (.rendering e), _ => .error (.rendering e)
  | .unread (.request e), _ => .error (.request e)
  | .interrupted (.unencodable e), _ => .error (.unencodable e)
  | .interrupted (.refused refusal), _ => .ok (check.refused session refusal none)
  | _, .error refusal => .ok (check.refused session refusal none)
  | .finding finding, .ok logHash => .ok (.ofFinding finding session logHash)
  | .stuck (.response e), .ok logHash =>
    .ok (.ofFault .decodeError e.message session (some logHash))
  | .unread (.record e), .ok logHash =>
    .ok (.ofFault .decodeError e.message session (some logHash))

variable [Memory] [KnownTypes]

/-- Check a log that was opened. -/
def runThrough (check : LogCheck) (verbose : Bool) (opened : OpenedFile) (console : Console) :
    Checked :=
  let log : OpenLog := ⟨⟨⟨opened.content, .file⟩, {}⟩, opened.fault?⟩
  let run := (check.session verbose).takeFrom console [] log 0
  ⟨check.reportOn run.ending run.session run.log.label, run.said⟩

/-- Check a log, given the opened file or why it cannot be had. -/
def run (check : LogCheck) (verbose : Bool) (console : Console) :
    Except DiskError OpenedFile → Checked
  | .ok opened => check.runThrough verbose opened console
  | .error (.refused refusal path?) =>
    ⟨.ok (check.refused (check.session verbose) refusal path?), []⟩
  | .error (.unencodable e) => ⟨.error (.unencodable e), []⟩
  | .error .nullCharacter => ⟨.error .nullCharacter, []⟩

/-- Check a log of a file system. -/
def runIn (check : LogCheck) (verbose : Bool) (fs : FileSystem) (console : Console) : Checked :=
  check.run verbose console (fs.openToRead check.logPath)

/-- Check the content of a log that can be read to its end, on a console that takes everything. -/
def runOn (check : LogCheck) (verbose : Bool) (content : List UInt8) : Checked :=
  check.runThrough verbose { content := content } .open

end LogCheck

end CallTrace
