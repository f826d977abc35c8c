import CallTrace.Proofs.CommandLine.Effects

/-!
# Running the program twice

A check of a log that is not the file of its own report can be made again: it ends in the same
way, says the same, and leaves the disk as it found it the second time. Only what it says of a
report that cannot be written may differ, for the directories that were made the first time stay,
and what is in their way is met from another path.
-/

namespace CallTrace

namespace Command

variable {fs : FileSystem} {console : Console} {arguments : List Letters} {c : Command}
variable {path : Path} {report : Report}

/-- The log of a command is a file, and not the one that its report goes to. -/
def LogStandsApart (fs : FileSystem) (c : Command) : Prop :=
  ∃ place bytes, fs.locate true c.check.logPath = .ok place ∧
    fs.lookup place = some (.file bytes) ∧
    ∀ path, c.reportOut = some (.path path) → fs.destination path ≠ .ok place

/-- Two ends of the program that tell of a report that could not be written: the first that a
directory above could not be made, the second that the directory of the report could not be. -/
structure ToldFromBelow (directory : Path) (first second : ProgramEnd) (above : Path)
    (refusal refusal' : Refusal) : Prop where
  /-- The first tells of a directory above the other. -/
  isAbove : above.IsAbove directory
  /-- Neither is a success. -/
  status : first.status = .ok 1 ∧ second.status = .ok 1
  /-- What the first tells. -/
  told : first.stderr = complaint refusal (some above.text)
  /-- What the second tells. -/
  toldAgain : second.stderr = complaint refusal' (some directory.text)
  /-- The same is in the way, or that it stands there is told as that it is no directory. -/
  refusals : refusal' = refusal ∨ refusal = .exists ∧ refusal'.tellsAbsence = true

section

variable [Memory] [KnownTypes]

/-- The report on a check has to be written in directories that cannot be made up to their last. -/
def ReportStopsShort (fs : FileSystem) (console : Console) (arguments : List Letters) : Prop :=
  ∃ c path report, ofArguments arguments = .ok c ∧ c.reportOut = some (.path path) ∧
    (c.check.runIn (!c.quiet) fs console).outcome = .ok report ∧ fs.StopsShort path.parent

/-- How a second run compares to the first. -/
structure Repeats (fs : FileSystem) (console : Console) (arguments : List Letters)
    (first second : ProgramEnd × FileSystem) : Prop where
  /-- The disk stays as the first run left it. -/
  disk : second.2 = first.2
  /-- The second run ends in the same way. -/
  status : second.1.status = first.1.status
  /-- It prints the same. -/
  stdout : second.1.stdout = first.1.stdout
  /-- It complains in the same words except where the report stops short. -/
  stderr_iff : second.1.stderr = first.1.stderr ↔ ¬ ReportStopsShort fs console arguments
  /-- Where it stops short, the two runs tell of different directories. -/
  short : ReportStopsShort fs console arguments → ∃ c path above refusal refusal',
    ofArguments arguments = .ok c ∧ c.reportOut = some (.path path) ∧
      ToldFromBelow path.parent first.1 second.1 above refusal refusal'

theorem Repeats.of_eq {first second : ProgramEnd × FileSystem} (h : second = first)
    (hshort : ¬ ReportStopsShort fs console arguments) :
    Repeats fs console arguments first second := by
  subst h
  exact ⟨rfl, rfl, rfl, iff_of_true rfl hshort, fun h => absurd h hshort⟩

/-- A run that ends early is the same the second time. -/
theorem repeats_of_early {early : EarlyEnd} (h : ofArguments arguments = .error early) :
    Repeats fs console arguments (runOn fs console arguments)
      (runOn (runOn fs console arguments).2 console arguments) := by
  refine .of_eq (by rw [runOn_of_early h, runOn_of_early h]) ?_
  rintro ⟨c, path, report, hc, -⟩
  cases hc.symm.trans h

/-- A run that has no report to write is the same the second time. -/
theorem repeats_of_no_report (harguments : ofArguments arguments = .ok c)
    (h : c.reportFile? (c.check.runIn (!c.quiet) fs console) = none) :
    Repeats fs console arguments (runOn fs console arguments)
      (runOn (runOn fs console arguments).2 console arguments) := by
  refine .of_eq (by rw [disk_of_no_report harguments h]) ?_
  rintro ⟨c', path, report, hc, hpath, houtcome, -⟩
  cases hc.symm.trans harguments
  cases (reportFile?_of_outcome hpath houtcome).symm.trans h

/-- A check makes the same of its log once the report is written elsewhere. -/
theorem runIn_writeBelow (hlog : LogStandsApart fs c) (hpath : c.reportOut = some (.path path))
    (text : Letters) (verbose : Bool) (console : Console) :
    c.check.runIn verbose (fs.writeBelow path text).2 console =
      c.check.runIn verbose fs console := by
  obtain ⟨place, bytes, hplace, hfile, hother⟩ := hlog
  rw [LogCheck.runIn, LogCheck.runIn,
    FileSystem.openToRead_writeBelow hplace hfile (hother path hpath)]

/-- A report that is written a second time comes to the same, or is refused in other words. -/
theorem repeats_of_report (harguments : ofArguments arguments = .ok c)
    (hpath : c.reportOut = some (.path path))
    (houtcome : (c.check.runIn (!c.quiet) fs console).outcome = .ok report)
    (hlog : LogStandsApart fs c) :
    Repeats fs console arguments (runOn fs console arguments)
      (runOn (runOn fs console arguments).2 console arguments) := by
  have hplace : c.reportOut ≠ some .missing := by simp [hpath]
  have hfirst := runOn_of_report harguments hpath houtcome
  have hsame := runIn_writeBelow hlog hpath report.json.fileText (!c.quiet) console
  rcases hwritten : fs.writeBelow path report.json.fileText with ⟨written, fs'⟩
  rw [hwritten] at hfirst hsame
  have hreported := (congrArg Checked.outcome hsame).trans houtcome
  have hsecond := runOn_of_report harguments hpath hreported
  have hshort : ReportStopsShort fs console arguments ↔ fs.StopsShort path.parent := by
    refine ⟨?_, fun h => ⟨c, path, report, harguments, hpath, houtcome, h⟩⟩
    rintro ⟨c', path', report', hc, hpath', -, h⟩
    cases hc.symm.trans harguments
    cases hpath'.symm.trans hpath
    exact h
  rw [hfirst]
  rcases FileSystem.writeBelow_again fs path report.json.fileText hwritten with
    ⟨hreaches, hagain⟩ |
      ⟨hstops, above, refusal, refusal', habove, rfl, hagain, hrefusals, hmessage⟩
  · rw [hagain, hsame] at hsecond
    exact .of_eq hsecond (mt hshort.mp hreaches)
  · rw [hagain, hsame] at hsecond
    rw [hsecond, finish_of_place houtcome hplace, finish_of_place houtcome hplace]
    refine ⟨rfl, rfl, rfl, iff_of_false ?_ fun hnot => hnot (hshort.mpr hstops), fun _ =>
      ⟨c, path, above, refusal, refusal', harguments, hpath, ⟨habove, ⟨rfl, rfl⟩, rfl, rfl,
        hrefusals⟩⟩⟩
    intro h
    have hletters := List.append_cancel_left (List.append_cancel_right h)
    exact hmessage (Letters.ofString_injective hletters)

/--
Where the log is a file and not the one that the report goes to, a second run ends like the first,
prints the same, and changes nothing. It complains in the same words except just where the report
has to be written in directories of which one above the last cannot be made, behind one that was
missing; then both runs fail, and they tell of different directories.
-/
theorem runOn_again (fs : FileSystem) (console : Console) (arguments : List Letters)
    (hlog : ∀ c, ofArguments arguments = .ok c → LogStandsApart fs c) :
    Repeats fs console arguments (runOn fs console arguments)
      (runOn (runOn fs console arguments).2 console arguments) := by
  cases harguments : ofArguments arguments with
  | error early => exact repeats_of_early harguments
  | ok c =>
    cases hfile : c.reportFile? (c.check.runIn (!c.quiet) fs console) with
    | none => exact repeats_of_no_report harguments hfile
    | some file =>
      obtain ⟨hpath, report, houtcome, -⟩ := reportFile?_eq_some_iff.mp hfile
      exact repeats_of_report harguments hpath houtcome (hlog c harguments)

/-- Where a directory for the report cannot be made, the program tells of this one. -/
theorem runOn_of_unmade {fs' : FileSystem} {refusal : Refusal} {path? : Option Letters}
    (harguments : ofArguments arguments = .ok c) (hpath : c.reportOut = some (.path path))
    (houtcome : (c.check.runIn (!c.quiet) fs console).outcome = .ok report)
    (hmade : fs.ensureDirectories path.parent = (.error (.refused refusal path?), fs')) :
    runOn fs console arguments =
      ({ status := .ok 1, stdout := (c.check.runIn (!c.quiet) fs console).printed,
         stderr := complaint refusal path? }, fs') := by
  have hplace : c.reportOut ≠ some .missing := by simp [hpath]
  rw [runOn_of_report harguments hpath houtcome, FileSystem.writeBelow_of_error hmade,
    finish_of_place houtcome hplace]

end

theorem logStandsApart_reporting {place : ReportPlace}
    (h : ∀ path, place = .path path → plainDisk.destination path ≠ .ok [Utf8.encode "log"]) :
    LogStandsApart plainDisk (reporting place) :=
  ⟨[Utf8.encode "log"], [], rfl, rfl, fun path hpath => h path (Option.some.inj hpath)⟩

attribute [local instance] Memory.addressable KnownTypes.ofLogs in
theorem runOn_again_newDirectory :
    let arguments : List Letters := ["log", "h", "1", "--report-out", "new/r"]
    let first := runOn plainDisk .open arguments
    let second := runOn first.2 .open arguments
    ofArguments arguments = .ok (reporting (.path ⟨.working, ["new", "r"]⟩)) ∧
      LogStandsApart plainDisk (reporting (.path ⟨.working, ["new", "r"]⟩)) ∧
      second.2 = first.2 ∧ second.1.status = first.1.status ∧ second.1.stdout = first.1.stdout ∧
      second.1.stderr = first.1.stderr := by
  intro arguments first second
  have harguments : ofArguments arguments =
      .ok (reporting (.path ⟨.working, ["new", "r"]⟩)) := by with_unfolding_all rfl
  have hfound : ¬ plainDisk.Missing ⟨.working, ["new"]⟩ :=
    FileSystem.not_missing_of_follow nofun
  have hdestination : plainDisk.destination ⟨.working, ["new", "r"]⟩ =
      .ok [Utf8.encode "new", Utf8.encode "r"] := by
    rw [FileSystem.destination]
    change (plainDisk.ensureDirectories ⟨.working, ["new"]⟩).2.locate _ _ = _
    rw [FileSystem.ensureDirectories_of_not_missing hfound]
    rfl
  have hapart : LogStandsApart plainDisk (reporting (.path ⟨.working, ["new", "r"]⟩)) := by
    refine logStandsApart_reporting fun path hpath => ?_
    cases hpath
    rw [hdestination]
    decide
  obtain ⟨hdisk, hstatus, hstdout, hstderr, -⟩ := runOn_again plainDisk .open arguments
    (fun c hc => by cases harguments.symm.trans hc; exact hapart)
  refine ⟨harguments, hapart, hdisk, hstatus, hstdout, hstderr.mpr ?_⟩
  rintro ⟨c, path, report, hc, hpath, -, hshort⟩
  cases harguments.symm.trans hc
  cases hpath
  exact hfound hshort.1

/-- Below a file no directory is made, but one that is missing before the file is. -/
theorem ensureDirectories_plainDisk :
    plainDisk.ensureDirectories ⟨.working, ["new", "..", "file", "x"]⟩ =
      (.error (.refused .exists (some "new/../file")),
        plainDisk.put [Utf8.encode "new"] .directory) := by
  have hmissing : plainDisk.Missing ⟨.working, ["new", ".."]⟩ ∧
      plainDisk.Missing ⟨.working, ["new", "..", "file"]⟩ ∧
      plainDisk.Missing ⟨.working, ["new", "..", "file", "x"]⟩ := by
    refine ⟨?_, ?_, ?_⟩ <;>
      exact FileSystem.missing_iff.mpr ⟨⟨by decide, by decide, by decide⟩, rfl⟩
  have hfound : ¬ plainDisk.Missing ⟨.working, ["new"]⟩ :=
    FileSystem.not_missing_of_follow nofun
  have hnew : plainDisk.ensureDirectories ⟨.working, ["new"]⟩ =
      (.ok (), plainDisk.put [Utf8.encode "new"] .directory) :=
    (FileSystem.ensureDirectories_of_not_missing hfound).trans rfl
  have hup : plainDisk.ensureDirectories ⟨.working, ["new", ".."]⟩ =
      (.ok (), plainDisk.put [Utf8.encode "new"] .directory) :=
    (FileSystem.ensureDirectories_of_made hmissing.1 hnew).trans rfl
  have hfile : plainDisk.ensureDirectories ⟨.working, ["new", "..", "file"]⟩ =
      (.error (.refused .exists (some "new/../file")),
        plainDisk.put [Utf8.encode "new"] .directory) :=
    (FileSystem.ensureDirectories_of_made hmissing.2.1 hup).trans rfl
  exact FileSystem.ensureDirectories_of_unmade hmissing.2.2 hfile

attribute [local instance] Memory.addressable KnownTypes.ofLogs in
/-- What a file is in the way of, behind a directory that was missing, is told twice otherwise. -/
theorem stderr_differs_behind_missing_directory :
    let arguments : List Letters := ["log", "h", "1", "--report-out", "new/../file/x/r"]
    let c := reporting (.path ⟨.working, ["new", "..", "file", "x", "r"]⟩)
    let first := runOn plainDisk .open arguments
    let second := runOn first.2 .open arguments
    ofArguments arguments = .ok c ∧ LogStandsApart plainDisk c ∧
      first.1.stderr =
        "Error: cannot write report: [Errno 17] File exists: 'new/../file'\n" ∧
      second.1.stderr =
        "Error: cannot write report: [Errno 20] Not a directory: 'new/../file/x'\n" := by
  intro arguments c first second
  have harguments : ofArguments arguments = .ok c := by with_unfolding_all rfl
  have hfound : ¬ (plainDisk.put [Utf8.encode "new"] .directory).Missing
      ⟨.working, ["new", "..", "file", "x"]⟩ :=
    FileSystem.not_missing_of_follow nofun
  have hagain : (plainDisk.put [Utf8.encode "new"] .directory).ensureDirectories
        ⟨.working, ["new", "..", "file", "x"]⟩ =
      (.error (.refused .notDirectory (some "new/../file/x")),
        plainDisk.put [Utf8.encode "new"] .directory) :=
    (FileSystem.ensureDirectories_of_not_missing hfound).trans rfl
  have hapart : LogStandsApart plainDisk c := by
    refine logStandsApart_reporting fun path hpath => ?_
    cases hpath
    rw [FileSystem.destination]
    change (plainDisk.ensureDirectories ⟨.working, ["new", "..", "file", "x"]⟩).2.locate _ _ ≠ _
    rw [ensureDirectories_plainDisk]
    decide
  obtain ⟨report, houtcome, -⟩ := outcome_of_empty c.check true openToRead_plainDisk
  have hlog : (plainDisk.put [Utf8.encode "new"] .directory).openToRead c.check.logPath =
      .ok { content := [] } := rfl
  obtain ⟨report', houtcome', -⟩ := outcome_of_empty c.check true hlog
  have hfirst := runOn_of_unmade harguments rfl houtcome ensureDirectories_plainDisk
  have hsecond := runOn_of_unmade harguments rfl houtcome' hagain
  refine ⟨harguments, hapart, (congrArg (·.1.stderr) hfirst).trans rfl, ?_⟩
  change (runOn (runOn plainDisk .open arguments).2 .open arguments).1.stderr = _
  rw [hfirst]
  exact (congrArg (·.1.stderr) hsecond).trans rfl

end Command

end CallTrace
