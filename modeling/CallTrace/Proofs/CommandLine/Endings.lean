import CallTrace.CommandLine.Command
import CallTrace.Proofs.Check.Consoles

/-!
# How the program ends

The program ends early and touches nothing, or it makes a check on what it read of the log. Then
there is a report to be written or none, and the end follows from what the check came to, from how
the writing went, and from what the console takes.
-/

namespace CallTrace

namespace Command

variable {fs fs' : FileSystem} {console : Console} {arguments : List Letters} {c : Command}
variable {checked : Checked} {report : Report} {path : Path}

/-- What is said of a report that was refused. -/
def complaint (refusal : Refusal) (path? : Option Letters) : Letters :=
  "Error: cannot write report: " ++ refusal.message path? ++ "\n"

/-- What is said behind the check once the report is written. -/
def closing (c : Command) (report : Report) : List Letters := c.reportLine ++ verdictLine report

/-- How a command ends whose check has a result. -/
inductive Finished (c : Command) (console : Console) (checked : Checked) (report : Report) :
    Except DiskError Unit → ProgramEnd → Prop
  /-- The report was to be written, but nowhere. -/
  | nowhere {written : Except DiskError Unit} (hplace : c.reportOut = some .missing) :
    Finished c console checked report written
      { status := .error .noReportPath, stdout := checked.printed }
  /-- The operating system refused the report. -/
  | unwritten {refusal : Refusal} {path? : Option Letters} (hplace : c.reportOut ≠ some .missing) :
    Finished c console checked report (.error (.refused refusal path?))
      { status := .ok 1, stdout := checked.printed, stderr := complaint refusal path? }
  /-- The path of the report, or the report, has no bytes. -/
  | unwritable {e : DiskError} (hplace : c.reportOut ≠ some .missing)
    (he : ∀ refusal path?, e ≠ .refused refusal path?) :
    Finished c console checked report (.error e)
      { status := .error (.report e), stdout := checked.printed }
  /-- The console did not take all that was left to say. -/
  | untold {said : Letters} {e : Interruption} (hplace : c.reportOut ≠ some .missing)
    (hsay : console.say checked.printed (c.closing report) = (said, some e)) :
    Finished c console checked report (.ok ()) { status := .error (.console e), stdout := said }
  /-- All was said. -/
  | told (hplace : c.reportOut ≠ some .missing)
    (htakes : console.Takes checked.printed (c.closing report)) :
    Finished c console checked report (.ok ())
      { status := .ok (if report.verdict = .pass then 0 else 1),
        stdout := checked.printed ++ (c.closing report).flatten }

/-- A command that has to write its report nowhere ends without an exit status. -/
theorem finish_of_missing (h : checked.outcome = .ok report) (hplace : c.reportOut = some .missing)
    (written : Except DiskError Unit) :
    c.finish console checked written =
      { status := .error .noReportPath, stdout := checked.printed } := by
  unfold finish
  rw [h, hplace]

/-- Where the report has a place, or there is none to write, the end follows from the writing. -/
theorem finish_of_place (h : checked.outcome = .ok report) (hplace : c.reportOut ≠ some .missing)
    (written : Except DiskError Unit) :
    c.finish console checked written =
      match written with
      | .error (.refused refusal path?) =>
        { status := .ok 1, stdout := checked.printed, stderr := complaint refusal path? }
      | .error e => { status := .error (.report e), stdout := checked.printed }
      | .ok () =>
        match console.say checked.printed (c.closing report) with
        | (said, some e) => { status := .error (.console e), stdout := said }
        | (said, none) =>
          { status := .ok (if report.verdict = .pass then 0 else 1), stdout := said } := by
  unfold finish
  rw [h]
  cases hout : c.reportOut with
  | none => rcases written with (_ | _ | _) | _ <;> rfl
  | some place =>
    cases place with
    | missing => exact absurd hout hplace
    | path p => rcases written with (_ | _ | _) | _ <;> rfl

theorem finish_finished (c : Command) (console : Console) (h : checked.outcome = .ok report)
    (written : Except DiskError Unit) :
    Finished c console checked report written (c.finish console checked written) := by
  by_cases hplace : c.reportOut = some .missing
  · rw [finish_of_missing h hplace]
    exact .nowhere hplace
  · rw [finish_of_place h hplace]
    cases written with
    | error e =>
      cases e with
      | refused refusal path? => exact .unwritten hplace
      | unencodable e => exact .unwritable hplace nofun
      | nullCharacter => exact .unwritable hplace nofun
    | ok _ =>
      dsimp only
      rcases console.say_cases checked.printed (c.closing report) with
        hall | ⟨before, _, _, e, -, -, hsaid⟩
      · rw [hall]
        exact .told hplace (congrArg Prod.snd hall)
      · rw [hsaid]
        exact .untold hplace hsaid

theorem closing_of_pass (h : report.verdict = .pass) : c.closing report = c.reportLine := by
  rw [closing, verdictLine, h]
  exact List.append_nil _

/-- What the end of a command tells of a result that was to be written at a path. -/
theorem Finished.status_iff {written : Except DiskError Unit} {ending : ProgramEnd}
    (hplace : c.reportOut ≠ some .missing)
    (h : Finished c console checked report written ending) :
    ending.status = .ok 0 ↔ report.verdict = .pass ∧ written = .ok () ∧
      console.Takes checked.printed c.reportLine := by
  cases h with
  | nowhere hmissing => exact absurd hmissing hplace
  | unwritten _ => exact iff_of_false (by simp) (by simp)
  | unwritable _ _ => exact iff_of_false (by simp) (by simp)
  | untold _ hsay =>
    refine iff_of_false (by simp) ?_
    rintro ⟨hpass, -, htakes⟩
    rw [closing_of_pass hpass, htakes.say_eq] at hsay
    cases hsay
  | told _ htakes =>
    by_cases hpass : report.verdict = .pass
    · rw [closing_of_pass hpass] at htakes
      simp [hpass, htakes]
    · simp [hpass]

section

variable [Memory] [KnownTypes]

theorem runOn_of_early {early : EarlyEnd} (h : ofArguments arguments = .error early) :
    runOn fs console arguments = (early.programEnd console, fs) := by
  rw [runOn, h]

/-- A command is carried out on the check that it makes of the log. -/
theorem runOn_of_command (h : ofArguments arguments = .ok c) :
    runOn fs console arguments =
      let checked := c.check.runIn (!c.quiet) fs console
      let written := writeReport fs (c.reportFile? checked)
      (c.finish console checked written.1, written.2) := by
  rw [runOn, h]
  rfl

end

/-- The report of a check is written just where there is a path for it and something to report. -/
theorem reportFile?_eq_some_iff {text : Letters} :
    c.reportFile? checked = some (path, text) ↔
      c.reportOut = some (.path path) ∧ ∃ report, checked.outcome = .ok report ∧
        text = report.json.fileText := by
  unfold reportFile?
  cases hplace : c.reportOut with
  | none => simp
  | some place =>
    cases place with
    | missing => simp
    | path p =>
      cases ho : checked.outcome with
      | error e => simp
      | ok report =>
        simp only [Option.some.injEq, Prod.mk.injEq, ReportPlace.path.injEq, Except.ok.injEq,
          exists_eq_left']
        exact and_congr_right fun _ => eq_comm

theorem reportFile?_of_outcome (hplace : c.reportOut = some (.path path))
    (houtcome : checked.outcome = .ok report) :
    c.reportFile? checked = some (path, report.json.fileText) :=
  reportFile?_eq_some_iff.mpr ⟨hplace, report, houtcome, rfl⟩

end Command

end CallTrace
