import CallTrace.Check.Advance
import CallTrace.Check.Console
import CallTrace.Check.Transcript

/-!
# Sessions

A session takes entries one by one, remembers the stage, counts what it was
given and says what there is to tell. A verbose session shows every entry and
all notes and milestones; a quiet one says nothing but that the check passed.
Taking a list of entries is taking them one by one up to the first finding or
error.
-/

namespace CallTrace

/-- One pass over one log. -/
structure Session where
  /-- The blob that the log has to show. -/
  target : Target
  /-- Whether to show every entry. -/
  verbose : Bool
  /-- What the check waits for. -/
  stage : Stage := .awaitLookup
  /-- How many entries were taken. -/
  entriesRead : Nat := 0
  deriving DecidableEq

/-- What comes of giving entries to a session. -/
structure Taken where
  /-- Where the last entry led, or why it led nowhere. -/
  outcome : Except AdvanceError Advance
  /-- The session after it. -/
  session : Session
  /-- What the session said. -/
  printed : String

namespace Session

variable [KnownTypes]

/-- What a session says of an entry before it advances, piece by piece. -/
def announcement (s : Session) (entry : LogEntry) : Except DecodeError (List String) :=
  if s.verbose then entry.transcript.map ([·, ruler]) else .ok []

/-- What a session says of an entry before it advances. -/
def announce (s : Session) (entry : LogEntry) : Except DecodeError String :=
  (s.announcement entry).map String.join

/-- The notes on an entry, a line for each. -/
def notes (s : Session) (a : Advance) : List String :=
  if s.verbose then a.notes.map (· ++ "\n") else []

/-- The notes on an entry, line behind line. -/
def noteLines (s : Session) (a : Advance) : String := String.join (s.notes a)

/-- The milestone that an entry is, where the session tells it, and a ruler. -/
def progress (s : Session) (a : Advance) : List String :=
  match a.progress? with
  | some text => if s.verbose || a.verdict? = some .pass then [text ++ "\n", ruler] else []
  | none => []

/-- The milestone that an entry is with the ruler below it, where the session tells it. -/
def progressLines (s : Session) (a : Advance) : String := String.join (s.progress a)

/-- Take one entry. It counts even if it leads nowhere. -/
def take (s : Session) (entry : LogEntry) : Taken :=
  let s := { s with entriesRead := s.entriesRead + 1 }
  match s.announce entry with
  | .error e => ⟨.error (.rendering e), s, ""⟩
  | .ok text =>
    match s.stage.advance entry s.target with
    | .error e => ⟨.error e, s, text⟩
    | .ok a => ⟨.ok a, { s with stage := a.stage }, text ++ s.noteLines a ++ s.progressLines a⟩

end Session

/-- Say something before what was said. -/
def Taken.after (printed : String) (t : Taken) : Taken := { t with printed := printed ++ t.printed }

variable [KnownTypes]

/-- Take entries up to a finding or an error; with it come the entries left over. -/
def Session.takeAll (s : Session) : List LogEntry → Taken × List LogEntry
  | [] => (⟨.ok s.stage.ranOut, s, ""⟩, [])
  | entry :: entries =>
    let t := s.take entry
    match t.outcome with
    | .error _ => (t, entries)
    | .ok a =>
      match a.ruling with
      | .final _ => (t, entries)
      | .goOn _ =>
        let (last, left) := t.session.takeAll entries
        (last.after t.printed, left)

end CallTrace
