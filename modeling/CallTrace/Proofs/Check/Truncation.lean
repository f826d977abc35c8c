import CallTrace.Proofs.Check.Folding

/-!
# Logs that are cut off

A log of written entries may be cut off at any byte. What is left holds whole
records and perhaps a part of one. If an entry of a whole record ends the check,
the rest of the log makes no difference but to the hash. If none does, the check
says that the log ran out where it was cut between two records, and that it cannot
be decoded where it was cut inside one.
-/

namespace CallTrace

namespace LogCheck

variable {entries : List LogEntry}

variable [Memory]

/-- The entries of the whole records are read off a log that is cut off inside the next one. -/
theorem read_torn (hs : ∀ entry ∈ entries, MessageType.logEntry.Storable .file entry)
    {next : LogEntry}
    (hn : MessageType.logEntry.Storable .file next) {part : List UInt8}
    (hpart : part <+: MessageType.logEntry.record next) (hne : part ≠ [])
    (hshort : part ≠ MessageType.logEntry.record next) :
    ∃ e, read (entries.flatMap MessageType.logEntry.record ++ part) =
        (entries, some (.record e)) ∧
      (e = .truncatedLength ∨ ∃ declared remaining,
        e = .short entries.length declared remaining) := by
  obtain ⟨e, he, hkind⟩ :=
    RecordStream.read_of_cut (t := .logEntry) .file (0 + entries.length) hn hpart hne hshort
  rw [Nat.zero_add] at hkind
  have hend := RecordStream.readAll_of_error (Prod.ext he rfl :
    (⟨⟨part, .file⟩, 0 + entries.length⟩ : RecordStream).read .logEntry = (.error (.record e), _))
  refine ⟨e, ?_, hkind.imp_right fun ⟨remaining, h⟩ => ⟨_, remaining, h⟩⟩
  have hall := RecordStream.readAll_of_records (t := .logEntry) hs part 0
  rw [hend, List.append_nil] at hall
  exact hall

end LogCheck

section

variable [Memory] [KnownTypes]

/--
A log of written entries that is cut off at any byte is never taken for another one. If an entry
of a whole record ends the check, the outcome is that on the whole log but for the hash. Otherwise
the log has run out where it was cut between two records, and cannot be decoded where it was cut
inside one. In both cases all entries of the whole records were taken.
-/
theorem runOn_cut (check : LogCheck) (verbose : Bool) {entries : List LogEntry}
    (hs : ∀ entry ∈ entries, MessageType.logEntry.Storable .file entry) {size : Nat}
    (hsize : size ≤ (entries.flatMap MessageType.logEntry.record).length) :
    let written := entries.flatMap MessageType.logEntry.record
    let count := MessageType.logEntry.wholeRecords size entries
    let start := check.session verbose
    let left := start.afterTaking (entries.take count)
    let full := check.runOn verbose written
    let cut := check.runOn verbose (written.take size)
    let logHash := Sha256.label (written.take size)
    (¬ start.Undecided (entries.take count) →
      cut.printed = full.printed ∧ cut.outcome = full.outcome.map (·.rehashed logHash)) ∧
    (start.Undecided (entries.take count) →
      ((∃ n ≤ entries.length,
          size = ((entries.take n).flatMap MessageType.logEntry.record).length) →
        cut.outcome = .ok
          { ok := false, verdict := .incomplete, stage := left.stage, entriesRead := count,
            message := Letters.ofString ("Log ended while still expecting " ++ left.stage.awaited),
            logHash := some logHash,
            issues :=
              [{ kind := .logExhausted
                 message := Letters.ofString ("Log ended while still expecting " ++ left.stage.awaited)
                 stage := left.stage
                 entryIndex := none }] }) ∧
      ((¬ ∃ n ≤ entries.length,
          size = ((entries.take n).flatMap MessageType.logEntry.record).length) →
        ∃ e : RecordError,
          (e = .truncatedLength ∨ ∃ declared remaining, e = .short count declared remaining) ∧
          cut.outcome = .ok
            { ok := false, verdict := .fail, stage := left.stage, entriesRead := count,
              message := e.message, logHash := some logHash,
              issues :=
                [{ kind := .decodeError, message := e.message, stage := left.stage,
                   entryIndex := none }] })) := by
  intro written count start left full cut logHash
  have hcount : count ≤ entries.length := MessageType.logEntry.wholeRecords_le_length size entries
  have hlength : (entries.take count).length = count := List.length_take_of_le hcount
  have hwhole : ∀ entry ∈ entries.take count, MessageType.logEntry.Storable .file entry :=
    fun entry h => hs entry (List.mem_of_mem_take h)
  obtain ⟨part, htake, hpart⟩ := MessageType.exists_cut_of_take (t := .logEntry) size entries
  have hboundary := MessageType.part_eq_nil_iff (t := .logEntry) hsize htake
  have hread : part = [] ∧ LogCheck.read (written.take size) = (entries.take count, none) ∨
      part ≠ [] ∧ ∃ e, LogCheck.read (written.take size) =
          (entries.take count, some (.record e)) ∧
        (e = .truncatedLength ∨ ∃ declared remaining, e = .short count declared remaining) := by
    by_cases hne : part = []
    · rw [hne, List.append_nil] at htake
      refine .inl ⟨hne, ?_⟩
      rw [htake, LogCheck.read_written hwhole]
    · obtain ⟨next, hmem, hprefix, hshort⟩ := hpart hne
      have htorn := LogCheck.read_torn hwhole (hs next hmem) hprefix hne hshort
      rw [hlength] at htorn
      rw [htake]
      exact .inr ⟨hne, htorn⟩
  have hleft : left.entriesRead = count := by
    rw [Session.entriesRead_afterTaking, hlength]
    exact Nat.zero_add count
  refine ⟨fun hdecided => ?_, fun hu => ⟨fun hat => ?_, fun hinside => ?_⟩⟩
  · obtain ⟨before, entry, after, hentries, hu, hd⟩ :=
      (start.undecided_or_exists_decisive (entries.take count)).resolve_left hdecided
    obtain ⟨text, hrun⟩ := LogCheck.runOn_of_decisive hu hd
    have hcut : (LogCheck.read (written.take size)).1 = before ++ entry :: after := by
      rcases hread with ⟨-, h⟩ | ⟨-, e, h, -⟩ <;> rw [h, hentries]
    have hfull : (LogCheck.read written).1 =
        before ++ entry :: (after ++ entries.drop count) := by
      rw [LogCheck.read_written hs, ← List.cons_append, ← List.append_assoc, ← hentries,
        List.take_append_drop]
    obtain ⟨houtcome, hprinted⟩ := hrun _ _ hcut
    obtain ⟨houtcome', hprinted'⟩ := hrun _ _ hfull
    refine ⟨hprinted.trans hprinted'.symm, ?_⟩
    rw [houtcome, houtcome']
    exact Taken.report_rehashed _ _ _
  · obtain ⟨-, h⟩ | ⟨hne, -⟩ := hread
    · have hrun : (check.runOn verbose (written.take size)).outcome = _ :=
        LogCheck.runOn_of_exhausted (by rw [h]; exact hu) (by rw [h])
      rw [h] at hrun
      rw [← hleft]
      exact hrun
    · exact absurd (hboundary.mpr hat) hne
  · obtain ⟨hnil, -⟩ | ⟨-, e, h, hkind⟩ := hread
    · exact absurd (hboundary.mp hnil) hinside
    · have hrun : (check.runOn verbose (written.take size)).outcome = _ :=
        LogCheck.runOn_of_undecodable (by rw [h]; exact hu) (by rw [h])
      rw [h] at hrun
      refine ⟨e, hkind, ?_⟩
      rw [← hleft]
      exact hrun

end

attribute [local instance] Memory.addressable KnownTypes.ofLogs in
theorem runOn_cut_earlyExecution :
    let check : LogCheck := ⟨⟨.working, ["log"]⟩, ⟨"h", 1, by decide⟩⟩
    let written := earlyExecution.flatMap MessageType.logEntry.record
    (∀ entry ∈ earlyExecution, MessageType.logEntry.Storable .file entry) ∧ 25 ≤ written.length ∧
      ∃ report, (check.runOn false (written.take 25)).outcome = .ok report ∧
        report.verdict = .fail ∧ report.entriesRead = 1 := by
  intro check written
  have hone : ((earlyExecution.take 1).flatMap MessageType.logEntry.record).length = 19 := by
    with_unfolding_all rfl
  have hboth : (earlyExecution.flatMap MessageType.logEntry.record).length = 44 := by
    with_unfolding_all rfl
  have hsize : 25 ≤ written.length := hboth ▸ by decide
  have hcount : MessageType.logEntry.wholeRecords 25 earlyExecution = 1 := by with_unfolding_all rfl
  have hinside : ¬ ∃ n ≤ earlyExecution.length,
      25 = ((earlyExecution.take n).flatMap MessageType.logEntry.record).length := by
    rintro ⟨_ | _ | _ | n, hn, h⟩
    · cases h
    · exact absurd (h.trans hone) (by decide)
    · exact absurd (h.trans hboth) (by decide)
    · exact absurd hn (by simp [earlyExecution])
  obtain ⟨-, hopen⟩ := runOn_cut check false storable_earlyExecution hsize
  rw [hcount] at hopen
  obtain ⟨-, htorn⟩ := hopen (undecided_read _ rfl)
  obtain ⟨e, -, houtcome⟩ := htorn hinside
  exact ⟨storable_earlyExecution, hsize, _, houtcome, rfl, rfl⟩

end CallTrace
