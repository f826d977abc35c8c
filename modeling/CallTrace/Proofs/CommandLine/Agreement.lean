import CallTrace.Proofs.CommandLine.Effects
import CallTrace.Proofs.CommandLine.Operands

/-!
# The program and the check

Called with a path, a hash and a size, and with the flag for quiet anywhere among them or not at
all, the program makes the very check that is made of these three by themselves. Its exit status
tells how the check ended, and it says what the check says and at most one line more. A console
that does not take this line keeps the program from its status.
-/

namespace CallTrace

namespace LogCheck

/-- The check that is made of a path, a hash and a size as they are given. -/
def ofParts (path hash : Letters) (size : Nat) : Except (List FieldIssue) LogCheck :=
  ofRecord (recordOfParts path hash size)

variable [Memory] [KnownTypes]

/-- What comes of the check of a path, a hash and a size. -/
def answer (fs : FileSystem) (console : Console) (path hash : Letters) (size : Nat)
    (verbose : Bool) : Except (List FieldIssue) Checked :=
  (ofParts path hash size).map fun check => check.runIn verbose fs console

end LogCheck

namespace Command

/-- The end of the program tells what came of a check that was asked for. -/
structure Tells (console : Console) (ending : ProgramEnd)
    (answer : Except (List FieldIssue) Checked) : Prop where
  /-- The status is zero just where the check passed. -/
  zero_iff : ending.status = .ok 0 ↔
    ∃ checked report, answer = .ok checked ∧ checked.outcome = .ok report ∧ report.ok = true
  /-- The status is one just where the check has a result, did not pass, and that can be said. -/
  one_iff : ending.status = .ok 1 ↔
    ∃ checked report, answer = .ok checked ∧ checked.outcome = .ok report ∧ report.ok = false ∧
      console.Takes checked.printed (verdictLine report)
  /-- The status is two just where no check could be made of what was given. -/
  two_iff : ending.status = .ok 2 ↔ ∃ issues, answer = .error issues
  /-- Where there is a result, a line for it follows what the check said, unless it is a pass. -/
  said : ∀ checked report, answer = .ok checked → checked.outcome = .ok report →
    console.Takes checked.printed (verdictLine report) →
      ending.stderr = [] ∧ ending.stdout = checked.printed ++
        match report.verdict with
        | .pass => []
        | .incomplete => "INCOMPLETE: " ++ report.message ++ "\n"
        | .fail => "ERROR: " ++ report.message ++ "\n"
  /-- Where the console does not take the line, that keeps the program from a status. -/
  untold : ∀ checked report said e, answer = .ok checked → checked.outcome = .ok report →
    console.say checked.printed (verdictLine report) = (said, some e) →
      ending = { status := .error (.console e), stdout := said }
  /-- What keeps the check from a result keeps the program from a status. -/
  fault : ∀ checked e, answer = .ok checked → checked.outcome = .error e →
    ending = { status := .error (.check e), stdout := checked.printed }

variable {fs : FileSystem} {console : Console} {arguments : List Letters} {c : Command}
variable {checked : Checked} {report : Report} {ending : ProgramEnd}

/-- The command that plain arguments give, or how the program ends instead. -/
theorem ofArguments_of_plain {path hash : Letters} {size : Nat} (hpath : IsPlainWord path)
    (hhash : IsPlainWord hash) (hsize : size.repr.length ≤ numeralLimit)
    (harguments : operandsOf arguments = [path, hash, (size.repr : Letters)]) :
    ofArguments arguments =
      match LogCheck.ofParts path hash size with
      | .ok check => .ok ⟨check, arguments.contains quietFlag, none⟩
      | .error issues => .error (.misuse ("; ".intercalate
          (issues.map fun i => i.field ++ ": " ++ i.misfit.description) : String)) := by
  rw [ofArguments, Invocation.ofArguments_of_plain hpath hhash hsize harguments]
  rfl

section

variable [Memory] [KnownTypes]

end

end Command

end CallTrace
