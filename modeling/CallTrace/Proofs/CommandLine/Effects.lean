import CallTrace.Proofs.Check.Interruptions
import CallTrace.Proofs.CommandLine.Endings
import CallTrace.Proofs.Disk.Rewriting
import CallTrace.Proofs.Json.Alike

/-!
# What the program changes

The program changes nothing on the disk but for the report that it is told to write, and it writes
the report whatever the verdict is. An exit status of zero tells that the check passed and that
the report, if there had to be one, is written. A report that the operating system refuses is told
of; a report that has no bytes, or no place, keeps the program from an exit status.
-/

namespace CallTrace

/-- What keeps the program from an exit status before it turns to the report. -/
def ProgramFault.PrecedesReport : ProgramFault → Prop
  | .check _ => True
  | .noReportPath => True
  | .report _ => False
  | .console _ => False

namespace Command

variable {fs fs' : FileSystem} {console : Console} {arguments : List Letters} {c : Command}
variable {path : Path} {checked : Checked} {report : Report}

section

variable [Memory] [KnownTypes]

/-- The run of a command whose check has a result that is to be written at a path. -/
theorem runOn_of_report (harguments : ofArguments arguments = .ok c)
    (hplace : c.reportOut = some (.path path))
    (houtcome : (c.check.runIn (!c.quiet) fs console).outcome = .ok report) :
    runOn fs console arguments =
      (c.finish console (c.check.runIn (!c.quiet) fs console)
          (fs.writeBelow path report.json.fileText).1,
        (fs.writeBelow path report.json.fileText).2) := by
  rw [runOn_of_command harguments]
  dsimp only
  rw [reportFile?_of_outcome hplace houtcome, writeReport]

/-- A command that has nothing to write leaves the disk as it is. -/
theorem disk_of_no_report (harguments : ofArguments arguments = .ok c)
    (h : c.reportFile? (c.check.runIn (!c.quiet) fs console) = none) :
    (runOn fs console arguments).2 = fs := by
  rw [runOn_of_command harguments]
  dsimp only
  rw [h, writeReport]

/-- What a run comes to whose check has a result that is to be written at a path. -/
structure Reports (fs : FileSystem) (console : Console) (arguments : List Letters) (c : Command)
    (path : Path) (report : Report) : Prop where
  /-- The disk is the one that writing the report leaves, whatever the verdict is. -/
  disk : (runOn fs console arguments).2 = (fs.writeBelow path report.json.fileText).2
  /-- A status of zero tells that the check passed, and that the report was written and told of. -/
  status_iff : (runOn fs console arguments).1.status = .ok 0 ↔
    report.verdict = .pass ∧ (fs.writeBelow path report.json.fileText).1 = .ok () ∧
      console.Takes (c.check.runIn (!c.quiet) fs console).printed c.reportLine
  /-- A report that was written stands at the path. -/
  standing : (fs.writeBelow path report.json.fileText).1 = .ok () →
    ∃ place, (runOn fs console arguments).2.locate true path = .ok place ∧
      (runOn fs console arguments).2.lookup place =
        some (.file (Letters.bytes report.json.fileText))
  /-- Of a report that was refused the reason is told, and no verdict. -/
  unwritten : ∀ refusal path?,
    (fs.writeBelow path report.json.fileText).1 = .error (.refused refusal path?) →
      (runOn fs console arguments).1 =
        { status := .ok 1, stdout := (c.check.runIn (!c.quiet) fs console).printed,
          stderr := complaint refusal path? }
  /-- Without an exit status, the report or its path has no bytes, or it was written and could not
  be told of. -/
  fault : ∀ fault, (runOn fs console arguments).1.status = .error fault →
    (∃ e, fault = .report e ∧ (fs.writeBelow path report.json.fileText).1 = .error e ∧
      ∀ refusal path?, e ≠ .refused refusal path?) ∨
    ∃ e, fault = .console e ∧ (fs.writeBelow path report.json.fileText).1 = .ok () ∧
      (console.say (c.check.runIn (!c.quiet) fs console).printed (c.closing report)).2 = some e
  /-- All other files are what they were. -/
  others : ∀ q place bytes, fs.locate true q = .ok place →
    fs.lookup place = some (.file bytes) → fs.destination path ≠ .ok place →
      (runOn fs console arguments).2.openToRead q = fs.openToRead q

theorem reports (harguments : ofArguments arguments = .ok c)
    (hpath : c.reportOut = some (.path path))
    (houtcome : (c.check.runIn (!c.quiet) fs console).outcome = .ok report) :
    Reports fs console arguments c path report := by
  have hplace : c.reportOut ≠ some .missing := by simp [hpath]
  have hrun := runOn_of_report harguments hpath houtcome
  have hfinished := c.finish_finished console houtcome
    (fs.writeBelow path report.json.fileText).1
  have hdisk : (runOn fs console arguments).2 = (fs.writeBelow path report.json.fileText).2 :=
    congrArg Prod.snd hrun
  have hending : (runOn fs console arguments).1 = c.finish console _ _ := congrArg Prod.fst hrun
  rw [← hending] at hfinished
  refine ⟨hdisk, hfinished.status_iff hplace, fun hwritten => ?_, fun refusal path? hwritten => ?_,
    fun fault hfault => ?_, fun q place bytes hq hfile hother => ?_⟩
  · rw [hdisk]
    exact (FileSystem.file_of_written (Prod.ext hwritten rfl)).2
  · rw [hending, finish_of_place houtcome hplace, hwritten]
  · generalize (fs.writeBelow path report.json.fileText).1 = written at hfinished
    generalize (runOn fs console arguments).1 = ending at hfinished hfault
    cases hfinished with
    | nowhere hmissing => exact absurd hmissing hplace
    | unwritten _ => cases hfault
    | unwritable _ he =>
      cases hfault
      exact .inl ⟨_, rfl, rfl, he⟩
    | untold _ hsay =>
      cases hfault
      exact .inr ⟨_, rfl, rfl, congrArg Prod.snd hsay⟩
    | told _ _ => cases hfault
  · rw [hdisk]
    exact FileSystem.openToRead_writeBelow hq hfile hother _

/--
A run that ends for misuse, for help or for the version, that is told of no report, or that an
error keeps from an exit status before it turns to the report, leaves the disk as it was. A run
whose check has a result that is to be written at a path leaves the disk that the writing of the
report leaves, and no other, however it ends.
-/
theorem runOn_changes_only_report (fs : FileSystem) (console : Console)
    (arguments : List Letters) :
    let run := runOn fs console arguments
    (run.1.status = .ok 2 ∨ (∃ early, ofArguments arguments = .error early) ∨
        (∀ c, ofArguments arguments = .ok c → c.reportOut = none) ∨
        (∃ fault, run.1.status = .error fault ∧ fault.PrecedesReport) → run.2 = fs) ∧
      ∀ c path report, ofArguments arguments = .ok c → c.reportOut = some (.path path) →
        (c.check.runIn (!c.quiet) fs console).outcome = .ok report →
          Reports fs console arguments c path report := by
  intro run
  refine ⟨fun hunchanged => ?_, fun c path report harguments hpath houtcome =>
    reports harguments hpath houtcome⟩
  cases harguments : ofArguments arguments with
  | error early => exact congrArg Prod.snd (runOn_of_early harguments)
  | ok c =>
    cases hfile : c.reportFile? (c.check.runIn (!c.quiet) fs console) with
    | none => exact disk_of_no_report harguments hfile
    | some file =>
      obtain ⟨path, text⟩ := file
      obtain ⟨hpath, report, houtcome, -⟩ := reportFile?_eq_some_iff.mp hfile
      have hreports := reports harguments hpath houtcome
      have hfinished := c.finish_finished console houtcome
        (fs.writeBelow path report.json.fileText).1
      have hending : run.1 = c.finish console _ _ :=
        congrArg Prod.fst (runOn_of_report harguments hpath houtcome)
      rcases hunchanged with hmisuse | ⟨early, hearly⟩ | hout | ⟨fault, hfault, hprecedes⟩
      · rw [← hending] at hfinished
        generalize (fs.writeBelow path report.json.fileText).1 = written at hfinished
        generalize run.1 = ending at hfinished hmisuse
        cases hfinished with
        | told _ _ =>
          simp only [Except.ok.injEq] at hmisuse
          split at hmisuse <;> cases hmisuse
        | _ => cases hmisuse
      · cases harguments.symm.trans hearly
      · cases hpath.symm.trans (hout c harguments)
      · rcases hreports.fault fault hfault with ⟨e, rfl, -⟩ | ⟨e, rfl, -⟩ <;> cases hprecedes

/-- A check of an empty log runs out of it. -/
theorem outcome_of_empty (check : LogCheck) (verbose : Bool)
    (h : fs.openToRead check.logPath = .ok { content := [] }) :
    ∃ report, (check.runIn verbose fs .open).outcome = .ok report ∧
      report.verdict = .incomplete := by
  have hread : LogCheck.read [] = ([], none) := LogCheck.read_written (List.forall_mem_nil _)
  have hundecided : (check.session verbose).Undecided (LogCheck.read []).1 := by
    rw [hread]
    trivial
  have houtcome := LogCheck.runOn_of_undecided check verbose hundecided
  rw [hread] at houtcome
  rw [LogCheck.runIn, h]
  exact ⟨_, houtcome, rfl⟩

end

/-- A disk with an empty log and a file beside it. -/
def plainDisk : FileSystem where
  entries := [([Utf8.encode "log"], .file []), ([Utf8.encode "file"], .file [])]
  working := []

theorem openToRead_plainDisk :
    plainDisk.openToRead ⟨.working, ["log"]⟩ = .ok { content := [] } := rfl

/-- A command that writes its report somewhere. -/
def reporting (place : ReportPlace) : Command :=
  ⟨⟨⟨.working, ["log"]⟩, ⟨"h", 1, by decide⟩⟩, false, some place⟩

attribute [local instance] Memory.addressable KnownTypes.ofLogs in
theorem runOn_changes_only_report_belowFile :
    let arguments : List Letters := ["log", "h", "1", "--report-out", "file/r"]
    let run := runOn plainDisk .open arguments
    ofArguments arguments = .ok (reporting (.path ⟨.working, ["file", "r"]⟩)) ∧
      run.2 = plainDisk ∧ run.1.status = .ok 1 ∧
      run.1.stderr = "Error: cannot write report: [Errno 17] File exists: 'file'\n" := by
  intro arguments run
  let c := reporting (.path ⟨.working, ["file", "r"]⟩)
  have harguments : ofArguments arguments = .ok c := by with_unfolding_all rfl
  obtain ⟨report, houtcome, -⟩ := outcome_of_empty c.check true openToRead_plainDisk
  have hfile : ¬ plainDisk.Missing ⟨.working, ["file"]⟩ :=
    FileSystem.not_missing_of_follow nofun
  have hmade : plainDisk.ensureDirectories ⟨.working, ["file"]⟩ =
      (.error (.refused .exists (some "file")), plainDisk) :=
    (FileSystem.ensureDirectories_of_not_missing hfile).trans rfl
  have hwritten : plainDisk.writeBelow ⟨.working, ["file", "r"]⟩ report.json.fileText =
      (.error (.refused .exists (some "file")), plainDisk) :=
    FileSystem.writeBelow_of_error hmade
  obtain ⟨hdisk, -, -, hunwritten, -, -⟩ :=
    (runOn_changes_only_report plainDisk .open arguments).2 c _ report harguments rfl houtcome
  have hending := hunwritten _ _ (congrArg Prod.fst hwritten)
  refine ⟨harguments, hdisk.trans (congrArg Prod.snd hwritten), ?_, ?_⟩
  · exact congrArg ProgramEnd.status hending
  · exact (congrArg ProgramEnd.stderr hending).trans rfl

/-- A command for a log that is not there, whose name is a byte that is part of no character. -/
def unnamed : Command :=
  ⟨⟨⟨.working, [[.half 0x4ff]]⟩, ⟨"h", 1, by decide⟩⟩, false, some (.path ⟨.working, ["r"]⟩)⟩

/-- What is reported of it. -/
def unnamedReport : Report :=
  unnamed.check.refused (unnamed.check.session true) .notFound (some [.half 0x4ff])

/-- The name of the log is in the report, which can therefore not be written. -/
theorem encode_unnamedReport : ∃ e, unnamedReport.json.fileText.encode = .error e := by
  cases hencode : unnamedReport.json.fileText.encode with
  | error e => exact ⟨e, rfl⟩
  | ok content =>
    have hchars := (Letters.encode_eq_ok_iff.mp hencode).1
    have hunicode : unnamedReport.json.IsUnicode :=
      Json.isUnicode_of_canonical fun l hl => hchars l (List.mem_append_left _ hl)
    have hmember : ("message", Json.string unnamedReport.message) ∈
        [("ok", Json.bool unnamedReport.ok), ("verdict", .string unnamedReport.verdict.name),
          ("stage", .string unnamedReport.stage.name),
          ("entries_read", .int unnamedReport.entriesRead),
          ("message", .string unnamedReport.message)] := by simp
    cases hunicode with
    | object hvalues =>
      cases hvalues _ (List.mem_append_left _ hmember) with
      | string htext => exact absurd (htext (.half 0x4ff) (by decide)) (by decide)

attribute [local instance] Memory.addressable KnownTypes.ofLogs in
/-- Told to write a report nowhere, the program has no exit status; and it has none where the
report cannot be written, though its file was made. -/
theorem no_status_of_lost_report :
    let nowhere := runOn plainDisk .open ["log", "h", "1", "--report-out=--"]
    let emptied := runOn plainDisk .open [[.half 0x4ff], "h", "1", "--report-out", "r"]
    nowhere.1.status = .error .noReportPath ∧ nowhere.1.stderr = [] ∧ nowhere.2 = plainDisk ∧
      (∃ e, emptied.1.status = .error (.report (.unencodable e))) ∧ emptied.1.stderr = [] ∧
      plainDisk.read ⟨.working, ["r"]⟩ = .error (.refused .notFound (some "r")) ∧
      emptied.2.read ⟨.working, ["r"]⟩ = .ok [] := by
  intro nowhere emptied
  have hnowhere : ∃ printed,
      nowhere = ({ status := .error .noReportPath, stdout := printed }, plainDisk) := by
    have harguments : ofArguments ["log", "h", "1", "--report-out=--"] =
        .ok (reporting .missing) := by with_unfolding_all rfl
    obtain ⟨report, houtcome, -⟩ := outcome_of_empty (reporting .missing).check true
      openToRead_plainDisk
    refine ⟨((reporting .missing).check.runIn true plainDisk .open).printed, ?_⟩
    exact (runOn_of_command harguments).trans
      (congrArg (·, plainDisk) (finish_of_missing houtcome rfl (.ok ())))
  have hemptied : ∃ e, emptied = ({ status := .error (.report (.unencodable e)), stdout := [] },
      plainDisk.put [Utf8.encode "r"] (.file [])) := by
    obtain ⟨e, hencode⟩ := encode_unnamedReport
    have harguments : ofArguments [[.half 0x4ff], "h", "1", "--report-out", "r"] =
        .ok unnamed := by with_unfolding_all rfl
    have hchecked : unnamed.check.runIn true plainDisk .open = ⟨.ok unnamedReport, []⟩ := rfl
    have hmade : plainDisk.ensureDirectories ⟨.working, []⟩ = (.ok (), plainDisk) :=
      FileSystem.ensureDirectories_of_hasDirectory (Path.usable_of_names_eq_nil rfl)
        (plainDisk.hasDirectory_of_names_eq_nil rfl)
    have hopens : plainDisk.OpensAt ⟨.working, ["r"]⟩ [Utf8.encode "r"] :=
      ⟨rfl, by decide, nofun, rfl⟩
    have hwritten : plainDisk.writeBelow ⟨.working, ["r"]⟩ unnamedReport.json.fileText =
        (.error (.unencodable e), plainDisk.put [Utf8.encode "r"] (.file [])) := by
      rw [FileSystem.writeBelow_of_ok hmade, hopens.write_eq, FileSystem.delivery, hencode]
    refine ⟨e, ?_⟩
    have hrun := runOn_of_report harguments rfl (congrArg Checked.outcome hchecked)
    rw [hwritten] at hrun
    refine hrun.trans (congrArg (·, _) ?_)
    exact (finish_of_place (congrArg Checked.outcome hchecked) (by decide) _).trans
      (congrArg (fun said => ProgramEnd.mk _ said []) (congrArg Checked.printed hchecked))
  obtain ⟨printed, hnowhere⟩ := hnowhere
  obtain ⟨e, hemptied⟩ := hemptied
  rw [hnowhere, hemptied]
  exact ⟨rfl, rfl, rfl, ⟨e, rfl⟩, rfl, rfl, rfl⟩

end Command

end CallTrace
