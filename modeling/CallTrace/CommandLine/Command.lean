import CallTrace.Check.Log
import CallTrace.CommandLine.Arguments

/-!
# The command

The arguments become a check to be made or an early end. Once the log was
read, the check says what there is to say; a result may have to be written,
and the way in which that went is told as well. The command itself reads and
writes nothing: what it needs of the disk is handed to it.
-/

namespace CallTrace

/-- The name of the program. -/
def programName : String := "grpclogcheck"

/-- The version of the program. -/
def programVersion : String := "0.1.0"

/-- How to call the program. -/
def usage : String :=
  "usage: grpclogcheck [-h] [--version] [--quiet] [--report-out REPORT_OUT]\n" ++
  "                    log_file file_hash file_size\n"

/-- What the program is for, and what its arguments mean. -/
def helpText : String :=
  usage ++
  "\n" ++
  "Check that a remote-execution gRPC log contains, in order, a FindMissingBlobs\n" ++
  "with the digest, a Write of it, and an Execute producing it as an output file.\n" ++
  "\n" ++
  "positional arguments:\n" ++
  "  log_file              Path to the gRPC log (length-delimited LogEntry\n" ++
  "                        records)\n" ++
  "  file_hash             Expected content hash\n" ++
  "  file_size             Expected content size in bytes\n" ++
  "\n" ++
  "options:\n" ++
  "  -h, --help            show this help message and exit\n" ++
  "  --version             show program's version number and exit\n" ++
  "  --quiet               Do not dump every log entry; print only stage results.\n" ++
  "  --report-out REPORT_OUT\n" ++
  "                        Write the check result as canonical JSON to this path\n"

/-- What keeps the program from an exit status. -/
inductive ProgramFault where
  /-- The check came to no result. -/
  | check (e : CheckError)
  /-- The path of the report is none that a disk could have, or the report has no bytes. -/
  | report (e : DiskError)
  /-- The result was to be written, but nowhere. -/
  | noReportPath
  /-- The console does not take what there is to say. -/
  | console (e : Interruption)
  deriving DecidableEq

/-- The text of a program fault. -/
def ProgramFault.message : ProgramFault → String
  | .check e => e.message
  | .report e => e.message
  | .noReportPath => "'list' object has no attribute 'parent'"
  | .console e => e.message

/-- How a program ends, and what it said. -/
structure ProgramEnd where
  /-- The exit status, or what kept the program from one. -/
  status : Except ProgramFault Nat
  /-- What was said on standard output. -/
  stdout : Letters := []
  /-- What was said on standard error. -/
  stderr : Letters := []

/-- The end of a program that was not called as it should be. -/
def ProgramEnd.misuse (message : Letters) : ProgramEnd where
  status := .ok 2
  stderr := usage ++ programName ++ ": error: " ++ message ++ "\n"

/-- The end of a program that only shows a text; that nobody can read it is not an error. -/
def ProgramEnd.showing (console : Console) (text : String) : ProgramEnd :=
  match console [] text with
  | none => { status := .ok 0, stdout := text }
  | some (.refused _) => { status := .ok 0 }
  | some (.unencodable e) => { status := .error (.console (.unencodable e)) }

/-- How the program ends without a check. -/
def EarlyEnd.programEnd (console : Console) : EarlyEnd → ProgramEnd
  | .help => .showing console helpText
  | .version => .showing console (programName ++ " " ++ programVersion ++ "\n")
  | .misuse message => .misuse message

/-- A check to be made and told of. -/
structure Command where
  /-- The check. -/
  check : LogCheck
  /-- Whether to say only whether the check passed. -/
  quiet : Bool
  /-- Where to write the result. -/
  reportOut : Option ReportPlace

namespace Command

/-- The command that arguments give, or how the program ends instead. -/
def ofArguments (arguments : List Letters) : Except EarlyEnd Command :=
  match Invocation.ofArguments arguments with
  | .error e => .error e
  | .ok invocation =>
    match LogCheck.ofRecord invocation.record with
    | .ok check => .ok ⟨check, invocation.quiet, invocation.reportOut⟩
    | .error issues =>
      .error (.misuse ("; ".intercalate
        (issues.map fun i => i.field ++ ": " ++ i.misfit.description) : String))

/-- What is to be written where. -/
def reportFile? (c : Command) (checked : Checked) : Option (Path × Letters) :=
  match c.reportOut, checked.outcome with
  | some (.path path), .ok report => some (path, report.json.fileText)
  | _, _ => none

/-- A line to be said, in the two pieces in which it is said. -/
def line (text : Letters) : List Letters := [text, "\n"]

/-- The line for a report, none for a pass. -/
def verdictLine (report : Report) : List Letters :=
  match report.verdict with
  | .pass => []
  | .incomplete => line ("INCOMPLETE: " ++ report.message)
  | .fail => line ("ERROR: " ++ report.message)

/-- The line for a written report. -/
def reportLine (c : Command) : List Letters :=
  match c.reportOut with
  | some (.path path) => if c.quiet then [] else line ("  Report: " ++ path.text)
  | _ => []

/-- How the program ends, given how the writing of the report went, if there was one to write. -/
def finish (c : Command) (console : Console) (checked : Checked)
    (written : Except DiskError Unit) : ProgramEnd :=
  match checked.outcome, c.reportOut, written with
  | .error e, _, _ => { status := .error (.check e), stdout := checked.printed }
  | .ok _, some .missing, _ => { status := .error .noReportPath, stdout := checked.printed }
  | .ok _, _, .error (.refused refusal path?) =>
    { status := .ok 1, stdout := checked.printed,
      stderr := "Error: cannot write report: " ++ refusal.message path? ++ "\n" }
  | .ok _, _, .error e => { status := .error (.report e), stdout := checked.printed }
  | .ok report, _, .ok () =>
    match console.say checked.printed (c.reportLine ++ verdictLine report) with
    | (said, some e) => { status := .error (.console e), stdout := said }
    | (said, none) =>
      { status := .ok (if report.verdict = .pass then 0 else 1), stdout := said }

/-- Write a report, if there is one. -/
def writeReport (fs : FileSystem) : Option (Path × Letters) → Except DiskError Unit × FileSystem
  | none => (.ok (), fs)
  | some (path, text) => fs.writeBelow path text

variable [Memory] [KnownTypes]

/-- Make the check on what was opened as the log. -/
def run (c : Command) (console : Console) (opened : Except DiskError OpenedFile) : Checked :=
  c.check.run (!c.quiet) console opened

/-- Run the program on a file system and a console. -/
def runOn (fs : FileSystem) (console : Console) (arguments : List Letters) :
    ProgramEnd × FileSystem :=
  match ofArguments arguments with
  | .error early => (early.programEnd console, fs)
  | .ok c =>
    let checked := c.run console (fs.openToRead c.check.logPath)
    let (written, fs) := writeReport fs (c.reportFile? checked)
    (c.finish console checked written, fs)

end Command

end CallTrace
