import CallTrace.Proofs.Check.Interruptions
import CallTrace.Proofs.Hash.Digests

/-!
# The hash of the log

A report on a log tells which log it was made on by the digest of the whole file. The bytes are
hashed as they are asked for by the check, and in chunks behind the place where the check stopped;
neither where that place is nor why the check stopped there makes any difference.
-/

namespace CallTrace

section

variable [Memory] [KnownTypes]

/--
A report on a log that can be read to its end has the hash to which the requests of the check came
and the chunks behind them. It is the digest of the whole file, in sixty-four digits. There is none
only where the operating system refused what the check said on the console.
-/
theorem logHash_of_content (check : LogCheck) (verbose : Bool) (fs : FileSystem)
    (console : Console) {content : List UInt8} {report : Report}
    (hlog : fs.read check.logPath = .ok content)
    (hreport : (check.runIn verbose fs console).outcome = .ok report) :
    let digits := Sha256.hexText (Sha256.digestOf content)
    report.logHash = some ((check.runOver verbose content).log.drain chunkSize).hasher.label ∧
        report.logHash = some ("sha256:" ++ digits) ∧
        digits.length = 64 ∧ (∀ c ∈ digits.toList, c ∈ "0123456789abcdef".toList) ∨
      ∃ said piece refusal, console said piece = some (.refused refusal) ∧
        report.logHash = none := by
  intro digits
  have hopen : fs.openToRead check.logPath = .ok { content := content } :=
    FileSystem.openToRead_of_read hlog
  rw [LogCheck.runIn, hopen] at hreport
  rcases LogCheck.runThrough_report hreport with ⟨-, hrun⟩ | hbreaks
  · have hhash := LogCheck.logHash_of_runOn hrun
    refine .inl ⟨?_, ?_, ?_, fun c => Sha256.mem_hexText⟩
    · rw [hhash, LogCheck.label_drain_runOver]
    · rw [hhash, Sha256.label_eq]
    · rw [Sha256.length_hexText, Sha256.length_digestOf]
  · have hnone := hbreaks.logHash
    rcases hbreaks with ⟨hfault | hsaid, -⟩ | hfault
    · cases hfault
    · exact .inr ⟨_, _, _, hsaid, hnone⟩
    · cases hfault

end

attribute [local instance] Memory.addressable KnownTypes.ofLogs in
theorem logHash_of_content_earlyExecution :
    let check : LogCheck := ⟨⟨.working, ["log"]⟩, ⟨"h", 1, by decide⟩⟩
    let written := earlyExecution.flatMap MessageType.logEntry.record
    let fs := FileSystem.onlyLog written
    fs.read check.logPath = .ok written ∧
      ∃ report, (check.runIn false fs .open).outcome = .ok report ∧ report.entriesRead = 2 ∧
        report.logHash = some ("sha256:" ++ Sha256.hexText (Sha256.digestOf written)) := by
  intro check written fs
  have hopen : fs.openToRead check.logPath = .ok { content := written } :=
    FileSystem.openToRead_onlyLog written
  have hfile : fs.read check.logPath = .ok written := by rw [FileSystem.read, hopen]
  have hread := congrArg Prod.fst (LogCheck.read_written storable_earlyExecution)
  have hd := decisive_execution
    ((check.session false).afterTaking [{ methodName := "/ByteStream/Read" }]) rfl
  obtain ⟨text, hrun⟩ := LogCheck.runOn_of_decisive (undecided_read _ rfl) hd
  have houtcome : (check.runIn false fs .open).outcome = (check.runOn false written).outcome := by
    rw [LogCheck.runIn, hopen]
    rfl
  have hreport := houtcome.trans ((hrun written [] hread).1.trans rfl)
  rcases logHash_of_content check false fs .open hfile hreport with hhash | ⟨_, _, _, hsaid, -⟩
  · exact ⟨hfile, _, hreport, rfl, hhash.2.1⟩
  · cases hsaid

end CallTrace
